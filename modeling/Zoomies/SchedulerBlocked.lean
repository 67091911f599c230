import Zoomies.SchedulerLedger
import Zoomies.SchedulerReap

/-! A pass only ever takes room away. -/
namespace Zoomies.Scheduler
open Zoomies.Go Zoomies.Store List

structure Narrower (hs hs' : HostSet) : Prop where
  fleet : SameFleet hs hs'
  free : ∀ id, hs'.free id ≤ hs.free id
  warming : ∀ id, hs.warming id ≤ hs'.warming id
  cpus : ∀ id, (hs'.left id).cpus ≤ (hs.left id).cpus
  memory : ∀ id, (hs'.left id).memoryMB ≤ (hs.left id).memoryMB
  disk : ∀ id, (hs'.left id).diskMB ≤ (hs.left id).diskMB
  promised : ∀ id, hs'.promisedMemory id ≤ hs.promisedMemory id
  untouched : ∀ id, hs'.ours id = false →
    hs.ours id = false ∧ hs'.left id = hs.left id ∧ hs'.promisedMemory id = hs.promisedMemory id

theorem narrower_refl {hs : HostSet} : Narrower hs hs where
  fleet := ⟨rfl, rfl, rfl⟩
  free _ := le_rfl
  warming _ := le_rfl
  cpus _ := le_rfl
  memory _ := le_rfl
  disk _ := le_rfl
  promised _ := le_rfl
  untouched _ ho := ⟨ho, rfl, rfl⟩

theorem Narrower.trans (a b c : HostSet) (hab : Narrower a b) (hbc : Narrower b c) :
    Narrower a c where
  fleet := ⟨hbc.fleet.hosts.trans hab.fleet.hosts, hbc.fleet.now.trans hab.fleet.now,
    hbc.fleet.alloc.trans hab.fleet.alloc⟩
  free id := (hbc.free id).trans (hab.free id)
  warming id := (hab.warming id).trans (hbc.warming id)
  cpus id := (hbc.cpus id).trans (hab.cpus id)
  memory id := (hbc.memory id).trans (hab.memory id)
  disk id := (hbc.disk id).trans (hab.disk id)
  promised id := (hbc.promised id).trans (hab.promised id)
  untouched id ho := by
    obtain ⟨hob, hleft, hprom⟩ := hbc.untouched id ho
    obtain ⟨hoa, hleft', hprom'⟩ := hab.untouched id hob
    exact ⟨hoa, hleft.trans hleft', hprom.trans hprom'⟩

theorem narrower_charge {hs : HostSet} (p : Pool) {id : String} {res : Reservation}
    (hc : 0 ≤ res.cpus) (hm : 0 ≤ res.memoryMB) (hd : 0 ≤ res.diskMB) :
    Narrower hs (hs.charge p id res) := by
  -- the three figures of what is left, at the host charged and at any other
  have hleft : ∀ k, ((hs.charge p id res).left k).cpus ≤ (hs.left k).cpus ∧
      ((hs.charge p id res).left k).memoryMB ≤ (hs.left k).memoryMB ∧
      ((hs.charge p id res).left k).diskMB ≤ (hs.left k).diskMB := by
    intro k
    change (Function.update hs.left id (hs.left id - res) k).cpus ≤ _ ∧
      (Function.update hs.left id (hs.left id - res) k).memoryMB ≤ _ ∧
      (Function.update hs.left id (hs.left id - res) k).diskMB ≤ _
    by_cases hk : k = id
    · subst hk
      rw [Function.update_self, Reservation.sub_cpus, Reservation.sub_memoryMB,
        Reservation.sub_diskMB]
      exact ⟨by linarith, by omega, by omega⟩
    · rw [Function.update_of_ne hk]
      exact ⟨le_rfl, le_rfl, le_rfl⟩
  refine ⟨sameFleet_charge, ?_, ?_, fun k => (hleft k).1, fun k => (hleft k).2.1,
    fun k => (hleft k).2.2, ?_, ?_⟩
  · exact update_le_self_iff.mpr (by omega : hs.free id - 1 ≤ hs.free id)
  · exact le_update_self_iff.mpr (by omega : hs.warming id ≤ hs.warming id + 1)
  · exact update_le_self_iff.mpr
      (by omega : hs.promisedMemory id - res.memoryMB ≤ hs.promisedMemory id)
  intro k ho
  change Function.update hs.ours id true k = false at ho
  by_cases hk : k = id
  · subst hk
    rw [Function.update_self] at ho
    cases ho
  · rw [Function.update_of_ne hk] at ho
    exact ⟨ho, Function.update_of_ne hk _ _, Function.update_of_ne hk _ _⟩

theorem narrower_granted {pass : Pass} {p : Pool} {runners : List Runner} {queued : List Job}
    {t t' : Tick} (hg : Granted pass p runners queued t t') : Narrower t.hosts t'.hosts := by
  obtain ⟨pl, hs', act, hplace, hhosts, -⟩ := hg.placed
  obtain ⟨h, -, res, -, -, haff, hcharge⟩ := HostSet.placeOne_eq_some hplace
  have hdisk : 0 ≤ res.diskMB := by
    rw [haff.disk]
    exact (reserve_diskMB_pos p h).le
  obtain ⟨hf, hfree, hwarm, hc, hm, hd, hprom, hun⟩ :=
    narrower_charge p haff.cpus_nonneg haff.memory_nonneg hdisk
  rw [hhosts, hcharge]
  exact ⟨⟨rfl, rfl, rfl⟩, hfree, hwarm, hc, hm, hd, hprom, hun⟩

section
variable {pass : Pass} {runners : RunnerTable} {demand : String → List Job} {pools : List Pool}

theorem narrower_step {t t' : Tick} (hs : Step pass runners demand pools t t') :
    Narrower t.hosts t'.hosts := by
  cases hs with
  | note p hp current why => exact narrower_refl
  | grant p hp hw hb =>
    rcases grant_cases pass p (runnersOf runners p.id) (demand p.id) t with ⟨-, hg⟩ | ⟨-, hr⟩
    · exact narrower_granted hg
    · rw [grantTo, hr.hosts]
      exact narrower_refl

end

namespace HostSet

theorem leftFor_memoryMB_le {hs hs' : HostSet} (hn : Narrower hs hs')
    (htight : ∀ id, (hs.left id).memoryMB ≤ hs.promisedMemory id) (h : Host) (p : Pool) :
    (hs'.leftFor h p).memoryMB ≤ (hs.leftFor h p).memoryMB := by
  change hs'.memoryLeft h p ≤ hs.memoryLeft h p
  unfold memoryLeft
  by_cases hp : p.resources.memoryMB ≤ 0
  · cases ho' : hs'.ours h.id with
    | false =>
      -- nothing of ours came to the host, so both read the promised memory
      have ho := (hn.untouched h.id ho').1
      simp only [hp, ho, Bool.not_false, and_self, ↓reduceIte]
      exact hn.promised h.id
    | true =>
      cases ho : hs.ours h.id with
      | false =>
        simp only [hp, Bool.not_true, Bool.not_false, Bool.false_eq_true, and_false, and_self,
          ↓reduceIte]
        exact (hn.memory h.id).trans (htight h.id)
      | true =>
        simp only [Bool.not_true, Bool.false_eq_true, and_false, ↓reduceIte]
        exact hn.memory h.id
  · simp only [hp, false_and, ↓reduceIte]
    exact hn.memory h.id

theorem fits_of_narrower {hs hs' : HostSet} (hn : Narrower hs hs')
    (htight : ∀ id, (hs.left id).memoryMB ≤ hs.promisedMemory id) {h : Host} {p : Pool}
    {want : Reservation} (hf : fits (hs'.leftFor h p) want (hs'.alloc h.id) = true) :
    fits (hs.leftFor h p) want (hs.alloc h.id) = true := by
  rw [hn.fleet.alloc] at hf
  have hm := leftFor_memoryMB_le hn htight h p
  have hc : (hs'.leftFor h p).cpus ≤ (hs.leftFor h p).cpus := hn.cpus h.id
  have hd : (hs'.leftFor h p).diskMB ≤ (hs.leftFor h p).diskMB := hn.disk h.id
  exact fits_mono hf (by omega) (by linarith) (by omega)

theorem admits_of_narrower {hs hs' : HostSet} (hn : Narrower hs hs') {h : Host} {p : Pool}
    (ha : hs'.admits h p = true) : hs.admits h p = true := by
  obtain ⟨hfree, hcan, hcalm⟩ := (admits_iff hs' h p).mp ha
  rw [hn.fleet.now] at hcan hcalm
  have hf := hn.free h.id
  have hw := hn.warming h.id
  refine (admits_iff hs h p).mpr ⟨by omega, hcan, ?_⟩
  rintro ⟨hpress, hwarm⟩
  exact hcalm ⟨hpress, by omega⟩

theorem shortOf_of_narrower {hs hs' : HostSet} (hn : Narrower hs hs')
    (htight : ∀ id, (hs.left id).memoryMB ≤ hs.promisedMemory id) {h : Host} {p : Pool}
    {r : Requirement} (hs0 : hs'.shortOf h p r = none) : hs.shortOf h p r = none := by
  obtain ⟨hmem, hcpu⟩ := shortOf_eq_none_iff.mp hs0
  rw [hn.fleet.alloc] at hmem hcpu
  have hm := leftFor_memoryMB_le hn htight h p
  have hc : (hs'.leftFor h p).cpus ≤ (hs.leftFor h p).cpus := hn.cpus h.id
  refine shortOf_eq_none_iff.mpr ⟨?_, ?_⟩
  · intro hk hr
    exact (hmem hk hr).trans hm
  intro hk hr
  have hl := hcpu hk hr
  linarith

theorem couldTake_of_narrower {hs hs' : HostSet} (hn : Narrower hs hs')
    (htight : ∀ id, (hs.left id).memoryMB ≤ hs.promisedMemory id) {need : Option Requirement}
    {h : Host} {p : Pool} (hct : (hs'.withNeed need).CouldTake p h) :
    (hs.withNeed need).CouldTake p h := by
  obtain ⟨hadm, hmeets, hroom⟩ := hct
  refine ⟨admits_of_narrower hn hadm, ?_, ?_⟩
  · cases need with
    | none => rfl
    | some r =>
      rw [meetsNeed, withNeed, Option.isNone_iff_eq_none] at hmeets
      rw [meetsNeed, withNeed, Option.isNone_iff_eq_none]
      exact shortOf_of_narrower hn htight hmeets
  rcases hroom with hroom | ⟨hpr, hsr, hfit⟩
  · exact .inl (fits_of_narrower hn htight hroom)
  · exact .inr ⟨hpr, hsr, fits_of_narrower hn htight hfit⟩

end HostSet

variable (s : Snapshot) (h : Host)

def vacated : Host := { h with activeRunners := 0 }

def clearedTable (runners : RunnerTable) : RunnerTable := runners.map fun entry => (entry.1, [])

@[simp] theorem clearedTable_rows (runners : RunnerTable) :
    (clearedTable runners).flatMap Prod.snd = [] := by
  rw [clearedTable, flatMap_map, flatMap_eq_nil_iff]
  intro entry _
  rfl

theorem emptied_distinct {s : Snapshot} :
    DistinctIDs s.pools (s.hosts.map vacated) (clearedTable s.runners) s.jobs s.installations where
  poolIDs := s.distinct.poolIDs
  hostIDs := by
    rw [map_map]
    exact s.distinct.hostIDs
  tableIDs := by
    rw [clearedTable, map_map]
    exact s.distinct.tableIDs
  runnerIDs := by
    rw [clearedTable_rows]
    exact nodup_nil
  runnersNamed := by
    rw [clearedTable_rows]
    exact forall_mem_nil _
  jobIDs := s.distinct.jobIDs
  installationIDs := s.distinct.installationIDs

def Snapshot.emptied : Snapshot :=
  { s with
    runners := clearedTable s.runners
    hosts := s.hosts.map vacated
    distinct := emptied_distinct }

def HostSet.withDisk (hs : HostSet) (disk : String → Int) : HostSet :=
  { hs with left := fun id => { hs.left id with diskMB := disk id } }

def afterEnding (hs : HostSet) : HostSet :=
  -- the hosts once every runner has ended; a runner that finishes keeps its caches on the disk
  (startingHosts s.emptied).withDisk fun id => (hs.left id).diskMB

theorem chargedOn_eq_nil {h : Host} {pools : List Pool} {runners : RunnerTable}
    (hl : ∀ r ∈ runners.flatMap Prod.snd, liveOn h r = false) : chargedOn h pools runners = [] := by
  rw [chargedOn, flatMap_eq_nil_iff]
  intro p _
  rw [map_eq_nil_iff, filter_eq_nil_iff]
  intro r hr
  rw [hl r (runnersOf_subset hr)]
  exact Bool.false_ne_true

theorem totalsByHost_of_idle {h : Host} (pools : List Pool) {runners : RunnerTable}
    (hl : ∀ r ∈ runners.flatMap Prod.snd, liveOn h r = false) :
    totalsByHost pools runners h = {} := by
  have hours : (runners.any fun entry => entry.2.any (liveOn h)) = false := by
    rw [any_eq_false]
    intro entry he
    rw [Bool.not_eq_true, any_eq_false]
    intro r hr
    rw [hl r (mem_flatMap.mpr ⟨entry, he, hr⟩)]
    exact Bool.false_ne_true
  rw [totalsByHost, chargedOn_eq_nil hl, hours]
  rfl

theorem openingTotals_emptied : openingTotals s.emptied h = {} := by
  apply totalsByHost_of_idle
  intro r hr
  rw [show s.emptied.runners = clearedTable s.runners from rfl, clearedTable_rows] at hr
  cases hr

theorem totals_ours (l : List (Pool × Runner)) (t : HostTotals) :
    (l.foldl (fun t pr => t.add pr.1 h pr.2) t).ours = t.ours := by
  induction l generalizing t with
  | nil => rfl
  | cons pr rest ih => rw [foldl_cons, ih, HostTotals.add]

theorem openingTotals_of_not_ours {s : Snapshot} {h : Host} (hh : h ∈ s.hosts)
    (ho : (startingHosts s).ours h.id = false) : openingTotals s h = {} := by
  have hours : (openingTotals s h).ours = false := by
    rw [← ho]
    exact (startingHosts_entry hh (fun h => (openingTotals s h).ours) false).symm
  rw [openingTotals, totalsByHost, totals_ours, any_eq_false] at hours
  apply totalsByHost_of_idle
  intro r hr
  obtain ⟨entry, he, hre⟩ := mem_flatMap.mp hr
  have hnone := hours entry he
  rw [Bool.not_eq_true, any_eq_false] at hnone
  exact Bool.not_eq_true _ ▸ hnone r hre

section
variable {s : Snapshot} {hs : HostSet} {h : Host} (hh : h ∈ s.hosts)
include hh

theorem vacated_mem : vacated h ∈ s.emptied.hosts := mem_map_of_mem hh

theorem afterEnding_alloc : (afterEnding s hs).alloc (vacated h).id = h.allocatable :=
  startingHosts_alloc (vacated_mem hh)

theorem emptied_ours : (startingHosts s.emptied).ours (vacated h).id = false := by
  have he := startingHosts_entry (vacated_mem hh) (fun h => (openingTotals s.emptied h).ours) false
  rw [openingTotals_emptied] at he
  exact he

theorem leftFor_afterEnding {p : Pool} (hn : Narrower (startingHosts s) hs)
    (ho : hs.ours h.id = false) : (afterEnding s hs).leftFor (vacated h) p = hs.leftFor h p := by
  obtain ⟨hstart, hleft, hprom⟩ := hn.untouched h.id ho
  have hnone := openingTotals_of_not_ours hh hstart
  -- both books open at nothing, on a host that differs only in its count of runners
  have hopen : (startingHosts s.emptied).left (vacated h).id = (startingHosts s).left h.id := by
    rw [startingHosts_left hh, startingHosts_left (vacated_mem hh), hnone, openingTotals_emptied]
    rfl
  have hpromised : (startingHosts s.emptied).promisedMemory (vacated h).id =
      (startingHosts s).promisedMemory h.id := by
    have he := startingHosts_entry (vacated_mem hh)
      (fun h => (unreserved h (openingTotals s.emptied h)).memoryMB) 0
    have hs' := startingHosts_entry hh (fun h => (unreserved h (openingTotals s h)).memoryMB) 0
    rw [openingTotals_emptied] at he
    rw [hnone] at hs'
    exact he.trans hs'.symm
  have hmem : (afterEnding s hs).memoryLeft (vacated h) p = hs.memoryLeft h p := by
    change (if p.resources.memoryMB ≤ 0 ∧ !(startingHosts s.emptied).ours (vacated h).id then
      (startingHosts s.emptied).promisedMemory (vacated h).id
      else ((startingHosts s.emptied).left (vacated h).id).memoryMB) = _
    rw [emptied_ours hh, hopen, hpromised, HostSet.memoryLeft, ho, hleft, hprom]
  ext
  · change ((startingHosts s.emptied).left (vacated h).id).cpus = (hs.left h.id).cpus
    rw [hopen, hleft]
  · exact hmem
  · rfl

end

theorem verdict_of_hostCanRun {hs : HostSet} {p : Pool} {h : Host}
    (hc : hostCanRun h p hs.now = true) : hs.verdict p h = hs.roomVerdict p h := by
  simp only [hostCanRun, hostAvailable, hostPresent, hostCouldRun, Bool.and_eq_true,
    Bool.not_eq_true', decide_eq_true_eq] at hc
  obtain ⟨⟨⟨⟨hhealthy, hcord⟩, hinc⟩, hadm⟩, ⟨⟨hoff, hplat⟩, hsel⟩, hfits⟩ := hc
  have hex : (excludedBySize h p).isSome = false := by
    rw [hostFits, Bool.and_eq_true] at hfits
    rw [Option.isSome_eq_false_iff]
    exact hfits.1
  simp [HostSet.verdict, hhealthy, hcord, hinc, hoff, hplat, hsel, hex, hadm]

theorem hostFits_disk {h : Host} {p : Pool} (hf : hostFits h p = true)
    (hk : h.allocatable.diskKnown = true) : (minimumReserve p h).diskMB ≤ h.allocatable.diskMB := by
  rw [hostFits, Bool.and_eq_true, Bool.and_eq_true, minimumReserve_sizedOn] at hf
  exact ((fits_iff.mp hf.2.2).1 hk).2

section
variable {s : Snapshot} (hs : HostSet) (p : Pool) (h : Host)

def canBeWaitedOut : Prop :=
  hs.outOfSlots p h = true ∨ hs.isCommitted p h = true ∨ hs.verdict p h = .held ∨
    hs.verdict p h = .warming

theorem shortage_of_couldTake (hh : h ∈ s.hosts) (hn : Narrower (startingHosts s) hs)
    (hfit : fits ((afterEnding s hs).leftFor (vacated h) p) (minimumReserve p h)
      h.allocatable = true) :
    hs.shortage p h = .full ∨
      (hs.shortage p h = .shortMemory ∨ hs.shortage p h = .shortCPU) ∧ hs.ours h.id = true := by
  obtain ⟨hdisk, hcpu, hmem⟩ := fits_iff.mp hfit
  have halloc : hs.alloc h.id = h.allocatable := by
    rw [hn.fleet.alloc, startingHosts_alloc hh]
  unfold HostSet.shortage
  rw [halloc]
  dsimp only
  split
  · rename_i hc
    -- the disk is the one the pass left, so it cannot be short here
    obtain ⟨hpos, hle⟩ := hdisk hc.1
    change _ ≤ (hs.leftFor h p).diskMB at hle
    rcases hc.2 with hz | hl
    · omega
    · omega
  · split
    · rename_i hc
      cases ho : hs.ours h.id with
      | true => exact .inr ⟨.inl rfl, rfl⟩
      | false =>
        have hle := hmem hc.1
        rw [leftFor_afterEnding hh hn ho] at hle
        exact absurd hc.2 (not_lt.mpr hle)
    · split
      · rename_i hc
        cases ho : hs.ours h.id with
        | true => exact .inr ⟨.inr rfl, rfl⟩
        | false =>
          have hle := hcpu hc.1
          rw [leftFor_afterEnding hh hn ho] at hle
          exact absurd hc.2 (not_lt.mpr hle)
      · exact .inl rfl

theorem waitedOut_of_couldTake (hh : h ∈ s.hosts) (hn : Narrower (startingHosts s) hs)
    (hct : (afterEnding s hs).CouldTake p (vacated h)) : canBeWaitedOut hs p h := by
  obtain ⟨hadm, -, hroom⟩ := hct
  have hcan : hostCanRun h p hs.now = true := by
    rw [hn.fleet.now]
    exact ((HostSet.admits_iff _ _ _).mp hadm).2.1
  have hfit : fits ((afterEnding s hs).leftFor (vacated h) p) (minimumReserve p h)
      h.allocatable = true := by
    rw [← afterEnding_alloc hh]
    rcases hroom with hroom | ⟨-, -, hroom⟩
    · exact fits_minimumReserve hroom
    · exact hroom
  have hfits : hostFits h p = true := by
    rw [hostCanRun, hostCouldRun, Bool.and_eq_true, Bool.and_eq_true] at hcan
    exact hcan.2.2
  have halloc : hs.alloc h.id = h.allocatable := by
    rw [hn.fleet.alloc, startingHosts_alloc hh]
  have hv := verdict_of_hostCanRun hcan
  unfold HostSet.roomVerdict at hv
  rw [halloc] at hv
  split at hv
  · exact .inr (.inr (.inr hv))
  split at hv
  · exact .inl (by simp [HostSet.outOfSlots, hv])
  split at hv
  · rename_i hc
    exact absurd hc.2 (not_lt.mpr (hostFits_disk hfits hc.1))
  rw [hfits] at hv
  split at hv
  · rename_i hc
    cases hc
  split at hv
  · exact .inl (by simp [HostSet.outOfSlots, hv])
  -- it has a slot and is the right kind of machine
  rcases shortage_of_couldTake hs p h hh hn hfit with hf | ⟨hshort, ho⟩
  · exact .inl (by simp [HostSet.outOfSlots, hv, hf])
  refine .inr (.inl ?_)
  rcases hshort with hshort | hshort
  · simp [HostSet.isCommitted, hv, hshort, ho]
  · simp [HostSet.isCommitted, hv, hshort, ho]

end

theorem not_waitedOut_of_noEligibleHost {hs : HostSet} {p : Pool}
    (hw : (hs.why p).noEligibleHost = true) : ∀ h ∈ hs.hosts, ¬ canBeWaitedOut hs p h := by
  intro h hh hc
  have hne : ¬ hs.hosts.isEmpty = true := by
    rw [List.isEmpty_iff]
    exact List.ne_nil_of_mem hh
  rw [HostSet.why, if_neg hne] at hw
  have hzero := of_decide_eq_true hw
  unfold HostSet.count at hzero
  -- five counts that add up to zero are five empty lists
  have hempty : ∀ q : Host → Bool, ((hs.hosts.filter q).length : Int) = 0 → q h = false := by
    intro q hq
    by_contra hqh
    rw [Bool.not_eq_false] at hqh
    exact List.ne_nil_of_mem (List.mem_filter.mpr ⟨hh, hqh⟩)
      (List.length_eq_zero_iff.mp (by exact_mod_cast hq))
  rcases hc with hslots | hcommitted | hheld | hwarming
  · rw [HostSet.outOfSlots, Bool.or_eq_true] at hslots
    rcases hslots with hv | hv
    · exact absurd hv (by rw [hempty (fun g => hs.verdict p g == .throttled) (by omega)]; decide)
    · exact absurd hv (by rw [hempty (fun g => hs.verdict p g == .full) (by omega)]; decide)
  · exact absurd hcommitted (by rw [hempty (hs.isCommitted p) (by omega)]; decide)
  · have hf := hempty (fun g => hs.verdict p g == .held) (by omega)
    rw [hheld] at hf
    cases hf
  have hf := hempty (fun g => hs.verdict p g == .warming) (by omega)
  rw [hwarming] at hf
  cases hf

theorem couldTake_afterEnding_mono {s : Snapshot} {hs hs' : HostSet} (hn : Narrower hs hs')
    {p : Pool} {h : Host} (hct : (afterEnding s hs').CouldTake p h) :
    (afterEnding s hs).CouldTake p h := by
  obtain ⟨hadm, hmeets, hroom⟩ := hct
  have hfit : ∀ want, fits ((afterEnding s hs').leftFor h p) want ((afterEnding s hs').alloc h.id) =
      true → fits ((afterEnding s hs).leftFor h p) want ((afterEnding s hs).alloc h.id) = true := by
    intro want hf
    have hd : ((afterEnding s hs').leftFor h p).diskMB ≤ ((afterEnding s hs).leftFor h p).diskMB :=
      hn.disk h.id
    exact fits_mono hf (by omega) le_rfl le_rfl
  refine ⟨hadm, hmeets, ?_⟩
  rcases hroom with hroom | ⟨hpr, hsr, hroom⟩
  · exact .inl (hfit _ hroom)
  · exact .inr ⟨hpr, hsr, hfit _ hroom⟩

structure Truthful (s : Snapshot) (t : Tick) : Prop where
  narrower : Narrower (startingHosts s) t.hosts
  noHost : ∀ p ∈ s.pools, (t.plans p.id).blockedNoEligibleHost = true →
    ∀ h ∈ s.hosts, ¬ (afterEnding s t.hosts).CouldTake p (vacated h)

theorem truthful_step {s : Snapshot} {pass : Pass} (t t' : Tick) (ht : Truthful s t)
    (hstep : Step pass s.runners (demandOf s).demand (sortedPools s.pools) t t') :
    Truthful s t' := by
  have hn := narrower_step hstep
  refine ⟨ht.narrower.trans _ _ _ hn, ?_⟩
  -- a flag that was there before the step stays right, since room only goes
  have hold : ∀ p ∈ s.pools, (t.plans p.id).blockedNoEligibleHost = true →
      ∀ h ∈ s.hosts, ¬ (afterEnding s t'.hosts).CouldTake p (vacated h) := by
    intro p hp hb h hh hct
    exact ht.noHost p hp hb h hh (couldTake_afterEnding_mono hn hct)
  intro p hp hb
  rcases step_words sortedPools_ids_nodup (mem_sortedPools.mpr hp) hstep
    with hr | ⟨-, hsame⟩
  · rcases hr.words with ⟨need, -, -, -, hkeep⟩ | ⟨-, hwhy⟩
    · rw [hkeep] at hb
      exact hold p hp hb
    rw [hwhy] at hb
    intro h hh hct
    rw [hr.hosts] at hct
    have hmem : h ∈ t.hosts.hosts := by
      rw [ht.narrower.fleet.hosts]
      exact mem_startingHosts.mpr hh
    exact not_waitedOut_of_noEligibleHost hb h hmem
      (waitedOut_of_couldTake t.hosts p h hh ht.narrower hct)
  · rw [hsame] at hb
    exact hold p hp hb

theorem decidePool_unblocked {pass : Pass} {p : Pool} {runners : List Runner} {queued : List Job} :
    (decidePool pass p runners queued).blocked = "" ∧
      (decidePool pass p runners queued).blockedNoEligibleHost = false := by
  unfold decidePool
  dsimp only
  split
  · exact ⟨rfl, rfl⟩
  · split <;> exact ⟨rfl, rfl⟩

theorem truthful_finalTick {s : Snapshot} : Truthful s (finalTick s) := by
  apply Reach.keeps (Truthful s) truthful_step _ _ (finalTick_reach s)
  refine ⟨narrower_refl, ?_⟩
  intro p hp hb
  rw [startingTick_plan hp, decidedPlan, decidePool_unblocked.2] at hb
  cases hb

theorem finalTick_poolID {s : Snapshot} {p : Pool} (hp : p ∈ s.pools) :
    ((finalTick s).plans p.id).poolID = p.id := by
  have hb := congrArg PoolPlan.poolID ((plansKept_finalTick s).base p.id)
  rw [startingTick_plan hp] at hb
  exact hb.trans decidePool_poolID

theorem decide_plan {s : Snapshot} {plan : PoolPlan} (hplan : plan ∈ s.decide.pools) {p : Pool}
    (hid : plan.poolID = p.id) : plan = finishPlan ((finalTick s).plans p.id) := by
  obtain ⟨q, hq, rfl⟩ := mem_map.mp hplan
  rw [mem_sortedPools] at hq
  have hqid : q.id = p.id := (finalTick_poolID hq).symm.trans hid
  rw [hqid]

/-- A pool told no host is eligible gains nothing by waiting: with every runner ended and the disk
as this pass leaves it, no host takes a runner of it. -/
theorem noEligibleHost_truthful (s : Snapshot) (plan : PoolPlan) (hplan : plan ∈ s.decide.pools)
    (hb : plan.blockedNoEligibleHost = true) (p : Pool) (hp : p ∈ s.pools)
    (hid : plan.poolID = p.id) (n : Nat) (avoid : String → Bool) :
    ((afterEnding s (finalTick s).hosts).placeAvoiding p n avoid).1 = [] := by
  have hnone := (truthful_finalTick).noHost p hp
  rw [decide_plan hplan hid] at hb
  cases n with
  | zero => rfl
  | succ n =>
    rw [HostSet.placeAvoiding_succ_eq_nil_iff]
    intro h hh
    obtain ⟨g, hg, rfl⟩ := mem_map.mp (mem_startingHosts.mp hh)
    exact hnone hb g hg

def fullDisk : Snapshot where
  now := 3 * hour
  pools := [{ id := "p1", name := "linux", enabled := true, minRunners := 2, maxRunners := 4 }]
  runners := [("p1", [{ id := "r1", hostID := "h1", state := .busy, createdAt := hour }])]
  hosts := [{ id := "h1", capacity := 4, backends := ["docker"], activeRunners := 1,
              diskTotalMB := 100000, diskFreeMB := 20000, lastHeartbeat := 3 * hour }]
  distinct := by constructor <;> decide

/-- The runner ending would make room, but its disk is counted as gone for good. -/
theorem fullDisk_noEligibleHost :
    ∃ plan ∈ fullDisk.decide.pools, plan.blockedNoEligibleHost = true ∧
      ∃ p ∈ fullDisk.pools, plan.poolID = p.id ∧
        (((startingHosts fullDisk.emptied).placeAvoiding p 1 fun _ => false).1.map
          Placement.hostID) = ["h1"] := by
  decide +kernel

theorem fullDisk_blocked : ∀ plan ∈ fullDisk.decide.pools,
    plan.blockedNoEligibleHost = true ∧ ∀ p ∈ fullDisk.pools, plan.poolID = p.id := by
  decide +kernel

/-- Nothing is placed there while that disk is kept. -/
theorem fullDisk_truthful : fullDisk.decide.pools ≠ [] ∧ ∀ plan ∈ fullDisk.decide.pools,
    plan.blockedNoEligibleHost = true ∧ ∀ p ∈ fullDisk.pools,
      ((afterEnding fullDisk (finalTick fullDisk).hosts).placeAvoiding p 1
        fun _ => false).1 = [] := by
  refine ⟨cons_ne_nil _ _, ?_⟩
  intro plan hplan
  obtain ⟨hb, hid⟩ := fullDisk_blocked plan hplan
  exact ⟨hb, fun p hp => noEligibleHost_truthful fullDisk plan hplan hb p hp (hid p hp) 1 _⟩

end Zoomies.Scheduler
