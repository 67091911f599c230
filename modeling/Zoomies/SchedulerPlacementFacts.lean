import Zoomies.SchedulerBlockage
import Zoomies.SchedulerReserveFacts

/-! The host a placement goes to, the charge it leaves there, and when it is refused. -/
namespace Zoomies.Scheduler
open Zoomies.Store List

def sizeCharge (p : Pool) (h : Host) (size : Option Resources) : Reservation :=
  match size with
  | none => reserve p h
  | some s =>
    { cpus := s.cpus * cpuFactor p
      memoryMB := s.memoryMB * memoryFactor p
      diskMB := (reserve p h).diskMB }

variable {p : Pool}

theorem memoryFactor_eq_two (h : memoryFactor p = 2) :
    0 < p.resources.memoryMB ∧ p.dockerMode = .dind := by
  unfold memoryFactor fieldFactor at h
  split at h
  · rename_i hc
    exact ⟨of_decide_eq_true hc.1, hc.2⟩
  · omega

theorem reserve_memoryMB_of_pair {h : Host} (hm : 0 < p.resources.memoryMB)
    (hd : p.dockerMode = .dind) : (reserve p h).memoryMB = p.resources.memoryMB * 2 := by
  simp only [reserve, sizedOn_memoryMB, sizedOn_dockerMode, not_le.mpr hm, hd, ↓reduceIte]

theorem memoryFactor_dvd_reserve (p : Pool) (h : Host) :
    memoryFactor p ∣ (reserve p h).memoryMB := by
  rcases memoryFactor_cases p with hf | hf
  · rw [hf]
    exact one_dvd _
  obtain ⟨hm, hd⟩ := memoryFactor_eq_two hf
  rw [hf, reserve_memoryMB_of_pair hm hd]
  exact dvd_mul_left _ _

theorem memoryFactor_dvd_minimumReserve {h : Host} :
    memoryFactor p ∣ (minimumReserve p h).memoryMB := by
  have hr := memoryFactor_dvd_reserve p h
  cases hc : (sizedOn p h).resources.reducible with
  | false => rwa [minimumReserve_of_not_reducible hc]
  | true =>
    rw [(minimumReserve_of_reducible hc).2, lowered]
    split
    · rcases memoryFactor_cases p with hf | hf
      · rw [hf]
        exact one_dvd _
      obtain ⟨hm, -⟩ := memoryFactor_eq_two hf
      rw [if_pos hm]
      rcases min_choice (reserve p h).memoryMB
        ((sizedOn p h).resources.minMemoryMB * memoryFactor p) with he | he
      · rwa [he]
      · rw [he]
        exact dvd_mul_left _ _
    · exact hr

theorem memoryFactor_dvd_reducedCharge {h : Host} {left : Reservation}
    {known : HostAllocation} : memoryFactor p ∣ (reducedCharge p h left known).memoryMB := by
  rw [reducedCharge_memoryMB]
  split
  · rcases max_choice (left.memoryMB.tdiv (memoryFactor p) * memoryFactor p)
      (minimumReserve p h).memoryMB with he | he
    · rw [he]
      exact dvd_mul_left _ _
    · rw [he]
      exact memoryFactor_dvd_minimumReserve
  · exact memoryFactor_dvd_reserve p h

variable {h : Host}

theorem sizeCharge_grantFor {c : Reservation} (hd : c.diskMB = (reserve p h).diskMB)
    (hm : memoryFactor p ∣ c.memoryMB) : sizeCharge p h (some (grantFor p c)) = c := by
  have hc : (cpuFactor p : ℚ) ≠ 0 := by
    rcases cpuFactor_cases p with hf | hf <;> rw [hf] <;> norm_num
  ext
  · exact div_mul_cancel₀ c.cpus hc
  · exact Int.tdiv_mul_cancel hm
  · exact hd.symm

structure Affordable (hs : HostSet) (p : Pool) (h : Host) (res : Reservation)
    (size : Option Resources) : Prop where
  fits : fits (hs.leftFor h p) res (hs.alloc h.id) = true
  cpus_nonneg : 0 ≤ res.cpus
  memory_nonneg : 0 ≤ res.memoryMB
  disk : res.diskMB = (reserve p h).diskMB
  memory_dvd : memoryFactor p ∣ res.memoryMB
  charge : res = sizeCharge p h size

variable {hs : HostSet}

theorem affordable_reserve (hr : hs.hasRoom h p = true) : Affordable hs p h (reserve p h) none where
  fits := hr
  cpus_nonneg := reserve_cpus_nonneg p h
  memory_nonneg := reserve_memoryMB_nonneg p h
  disk := rfl
  memory_dvd := memoryFactor_dvd_reserve p h
  charge := rfl

theorem affordable_reduced (hf : fits (hs.leftFor h p) (minimumReserve p h) (hs.alloc h.id) = true) :
    Affordable hs p h (reducedCharge p h (hs.leftFor h p) (hs.alloc h.id))
      (some (grantFor p (reducedCharge p h (hs.leftFor h p) (hs.alloc h.id)))) where
  fits := fits_reducedCharge hf
  cpus_nonneg := reducedCharge_cpus_nonneg
  memory_nonneg := reducedCharge_memoryMB_nonneg
  disk := reducedCharge_diskMB
  memory_dvd := memoryFactor_dvd_reducedCharge
  charge := (sizeCharge_grantFor reducedCharge_diskMB
    memoryFactor_dvd_reducedCharge).symm

namespace HostSet

theorem shortOf_eq_none_iff {r : Requirement} : hs.shortOf h p r = none ↔
      ((hs.alloc h.id).memoryKnown = true → r.memoryMB > 0 →
        r.memoryMB ≤ (hs.leftFor h p).memoryMB) ∧
      ((hs.alloc h.id).cpusKnown = true → r.cpus > 0 →
        r.cpus ≤ (hs.leftFor h p).cpus + cpuEpsilon) := by
  unfold shortOf
  dsimp only
  split
  · rename_i hc
    refine iff_of_false (by simp) ?_
    rintro ⟨hm, -⟩
    exact absurd (hm hc.1 hc.2.1) (not_le.mpr hc.2.2)
  rename_i hm
  split
  · rename_i hc
    refine iff_of_false (by simp) ?_
    rintro ⟨-, hl⟩
    exact absurd (hl hc.1 hc.2.1) (not_le.mpr hc.2.2)
  rename_i hc
  refine iff_of_true rfl ⟨?_, ?_⟩
  · intro hk hp
    by_contra hl
    exact hm ⟨hk, hp, not_le.mp hl⟩
  intro hk hp
  by_contra hl
  exact hc ⟨hk, hp, not_le.mp hl⟩

theorem raised_of {α : Type} {untyped more : Prop} [Decidable untyped] [Decidable more]
    {need own : α} (good : α → Prop) (hown : good own) (hneed : untyped → more → good need) :
    good (if (decide untyped && decide more) = true then need else own) := by
  split
  · rename_i hraised
    rw [Bool.and_eq_true, decide_eq_true_eq, decide_eq_true_eq] at hraised
    exact hneed hraised.1 hraised.2
  · exact hown

variable {res : Reservation} {size : Option Resources}

theorem affordable_sizeForNeed {r : Requirement} (ha : Affordable hs p h res size)
    (hn : hs.shortOf h p r = none) :
    Affordable hs p h (sizeForNeed p res size r).1 (sizeForNeed p res size r).2.1 := by
  obtain ⟨hmem, hcpu⟩ := shortOf_eq_none_iff.mp hn
  obtain ⟨hd, hc, hm⟩ := fits_iff.mp ha.fits
  have he := cpuEpsilon_pos
  have hcpu0 := ha.cpus_nonneg
  have hmem0 := ha.memory_nonneg
  unfold sizeForNeed
  dsimp only
  split
  · -- a field is raised only where the pool leaves it to the host, so its factor is one
    have hdvd : memoryFactor p ∣ (if (decide (p.resources.memoryMB ≤ 0) &&
        decide (r.memoryMB > res.memoryMB)) = true then r.memoryMB else res.memoryMB) := by
      apply raised_of (memoryFactor p ∣ ·) ha.memory_dvd
      intro hu _
      rw [memoryFactor_of_untyped p hu]
      exact one_dvd _
    refine ⟨fits_iff.mpr ⟨hd, ?_, ?_⟩, ?_, ?_, ha.disk, hdvd, ?_⟩
    · intro hk
      apply raised_of (· ≤ _) (hc hk)
      intro _ hmore
      exact hcpu hk (by linarith)
    · intro hk
      apply raised_of (· ≤ _) (hm hk)
      intro _ hmore
      exact hmem hk (by linarith)
    · apply raised_of (0 ≤ ·) hcpu0
      intro _ hmore
      linarith
    · apply raised_of (0 ≤ ·) hmem0
      intro _ hmore
      linarith
    symm
    apply sizeCharge_grantFor
    · exact ha.disk
    · exact hdvd
  · exact ha

theorem affordable_sized (ha : Affordable hs p h res size) (hn : hs.meetsNeed h p = true) :
    Affordable hs p h (hs.sized p res size).1 (hs.sized p res size).2.1 := by
  unfold sized
  unfold meetsNeed at hn
  cases hneed : hs.need with
  | none => exact ha
  | some r =>
    rw [hneed] at hn
    exact affordable_sizeForNeed ha (Option.isNone_iff_eq_none.mp hn)

def CouldTake (hs : HostSet) (p : Pool) (h : Host) : Prop :=
  hs.admits h p = true ∧ hs.meetsNeed h p = true ∧ (hs.hasRoom h p = true ∨
      (p.resources.reducible = true ∧ (sizedOn p h).resources.reducible = true ∧
        fits (hs.leftFor h p) (minimumReserve p h) (hs.alloc h.id) = true))

theorem admits_iff (hs : HostSet) (h : Host) (p : Pool) :
    hs.admits h p = true ↔ 0 < hs.free h.id ∧ hostCanRun h p hs.now = true ∧
      ¬(hostUnderCPUPressure h hs.now = true ∧ 0 < hs.warming h.id) := by
  simp only [admits, Bool.and_eq_true, decide_eq_true_eq, gt_iff_lt, Bool.not_eq_true',
    Bool.and_eq_false_iff, decide_eq_false_iff_not, not_and_or, Bool.not_eq_true, and_assoc]

theorem eligible_iff : hs.eligible h p = true ↔
      hs.admits h p = true ∧ hs.meetsNeed h p = true ∧ hs.hasRoom h p = true := by
  simp only [eligible, eligibleAsSized, Bool.and_eq_true]
  tauto

variable {avoid : String → Bool}

theorem mem_pick (hp : hs.pick p avoid = some h) : h ∈ hs.hosts ∧ hs.eligible h p = true := by
  rcases Option.or_eq_some_iff.mp hp with hb | ⟨-, hb⟩
  · have hm := bestChoice_mem hb
    simp only [mem_filter] at hm
    exact hm.1
  have hm := bestChoice_mem hb
  simp only [mem_filter] at hm
  exact hm.1

theorem pick_eq_none_iff (hs : HostSet) (p : Pool) (avoid : String → Bool) :
    hs.pick p avoid = none ↔ ∀ h ∈ hs.hosts, hs.eligible h p = false := by
  simp only [pick, Option.or_eq_none_iff, bestChoice_eq_none_iff, filter_eq_nil_iff,
    mem_filter, Bool.not_eq_true]
  constructor
  · rintro ⟨hfree, havoid⟩ h hh
    by_contra he
    rw [Bool.not_eq_false] at he
    cases ha : avoid h.id with
    | false => exact absurd (hfree h ⟨hh, he⟩) (by simp [ha])
    | true => exact absurd (havoid h ⟨hh, he⟩) (by simp [ha])
  intro hall
  refine ⟨?_, ?_⟩ <;>
  · rintro h ⟨hh, he⟩
    rw [hall h hh] at he
    cases he

theorem mem_pickReduced {o : ReducedOption}
    (ho : hs.pickReduced p avoid = some o) : ∃ h ∈ hs.hosts, hs.reducedOption p h = some o := by
  unfold pickReduced at ho
  split at ho
  · cases ho
  rcases Option.or_eq_some_iff.mp ho with hb | ⟨-, hb⟩
  · have hm := bestChoice_mem hb
    rw [mem_filter, mem_filterMap] at hm
    exact hm.1
  have hm := bestChoice_mem hb
  rw [mem_filter, mem_filterMap] at hm
  exact hm.1

theorem pickReduced_eq_none_iff (hs : HostSet) (p : Pool) (avoid : String → Bool) :
    hs.pickReduced p avoid = none ↔
      (p.resources.reducible = true → ∀ h ∈ hs.hosts, hs.reducedOption p h = none) := by
  cases hr : p.resources.reducible with
  | false => simp [pickReduced, hr]
  | true =>
    simp only [pickReduced, hr, Bool.not_true, Bool.false_eq_true, ↓reduceIte,
      Option.or_eq_none_iff, bestChoice_eq_none_iff, filter_eq_nil_iff, mem_filterMap,
      forall_const, Bool.not_eq_true]
    constructor
    · rintro ⟨hfree, havoid⟩ h hh
      by_contra hne
      obtain ⟨o, ho⟩ := Option.ne_none_iff_exists'.mp hne
      cases ha : avoid o.host.id with
      | false => exact absurd (hfree o ⟨h, hh, ho⟩) (by simp [ha])
      | true => exact absurd (havoid o ⟨h, hh, ho⟩) (by simp [ha])
    intro hall
    refine ⟨?_, ?_⟩ <;>
    · rintro o ⟨h, hh, ho⟩
      rw [hall h hh] at ho
      cases ho

theorem reducedOption_eq_some {o : ReducedOption} (ho : hs.reducedOption p h = some o) :
    o.host = h ∧ hs.admits h p = true ∧ hs.meetsNeed h p = true ∧
      (sizedOn p h).resources.reducible = true ∧
      fits (hs.leftFor h p) (minimumReserve p h) (hs.alloc h.id) = true ∧
      o.charge = reducedCharge p h (hs.leftFor h p) (hs.alloc h.id) ∧ o.grant = grantFor p o.charge := by
  unfold reducedOption at ho
  split at ho
  · rename_i hc
    rw [Bool.and_eq_true] at hc
    rw [reducedSize_eq] at ho
    split at ho
    · rename_i hr
      cases ho
      exact ⟨rfl, hc.1, hc.2, hr.1, hr.2, rfl, rfl⟩
    · cases ho
  · cases ho

theorem reducedOption_eq_none_iff : hs.reducedOption p h = none ↔
      ¬(hs.admits h p = true ∧ hs.meetsNeed h p = true ∧ (sizedOn p h).resources.reducible = true ∧
        fits (hs.leftFor h p) (minimumReserve p h) (hs.alloc h.id) = true) := by
  unfold reducedOption
  rw [reducedSize_eq]
  by_cases hc : (hs.admits h p && hs.meetsNeed h p) = true
  · rw [if_pos hc]
    rw [Bool.and_eq_true] at hc
    by_cases hr : (sizedOn p h).resources.reducible = true ∧
        fits (hs.leftFor h p) (minimumReserve p h) (hs.alloc h.id) = true
    · simp [hr, hc]
    · rw [if_neg hr, Option.map_none]
      exact iff_of_true rfl fun ha => hr ⟨ha.2.2.1, ha.2.2.2⟩
  · rw [if_neg hc]
    rw [Bool.and_eq_true] at hc
    exact iff_of_true rfl fun ha => hc ⟨ha.1, ha.2.1⟩

theorem choose_eq_some (hc : hs.choose p avoid = some (h, res, size)) :
    h ∈ hs.hosts ∧ hs.admits h p = true ∧ hs.meetsNeed h p = true ∧ Affordable hs p h res size := by
  unfold choose at hc
  split at hc
  · rename_i g hp
    cases hc
    obtain ⟨hm, he⟩ := mem_pick hp
    obtain ⟨ha, hn, hr⟩ := eligible_iff.mp he
    exact ⟨hm, ha, hn, affordable_reserve hr⟩
  obtain ⟨o, ho, heq⟩ := Option.map_eq_some_iff.mp hc
  obtain ⟨g, hm, hg⟩ := mem_pickReduced ho
  obtain ⟨hh, ha, hn, -, hf, hch, hgr⟩ := reducedOption_eq_some hg
  cases heq
  rw [hh, hgr, hch]
  exact ⟨hm, ha, hn, affordable_reduced hf⟩

theorem choose_eq_none_iff (hs : HostSet) (p : Pool) (avoid : String → Bool) :
    hs.choose p avoid = none ↔ ∀ h ∈ hs.hosts, ¬ hs.CouldTake p h := by
  have hsplit : hs.choose p avoid = none ↔
      hs.pick p avoid = none ∧ hs.pickReduced p avoid = none := by
    unfold choose
    split
    · rename_i h hp
      simp [hp]
    · rename_i hp
      simp [hp]
  rw [hsplit, pick_eq_none_iff, pickReduced_eq_none_iff]
  constructor
  · rintro ⟨hp, hr⟩ h hh ⟨ha, hn, hroom | ⟨hpr, hsr, hf⟩⟩
    · have he := eligible_iff.mpr ⟨ha, hn, hroom⟩
      rw [hp h hh] at he
      cases he
    · exact reducedOption_eq_none_iff.mp (hr hpr h hh) ⟨ha, hn, hsr, hf⟩
  intro hall
  refine ⟨?_, ?_⟩
  · intro h hh
    by_contra he
    rw [Bool.not_eq_false] at he
    obtain ⟨ha, hn, hr⟩ := eligible_iff.mp he
    exact hall h hh ⟨ha, hn, .inl hr⟩
  intro hpr h hh
  rw [reducedOption_eq_none_iff]
  rintro ⟨ha, hn, hsr, hf⟩
  exact hall h hh ⟨ha, hn, .inr ⟨hpr, hsr, hf⟩⟩

theorem placeOne_eq_some {hs' : HostSet} {pl : Placement}
    (hp : hs.placeOne p avoid = some (pl, hs')) :
    ∃ h ∈ hs.hosts, ∃ res, pl.hostID = h.id ∧ hs.admits h p = true ∧
      Affordable hs p h res pl.size ∧ hs' = hs.charge p h.id res := by
  obtain ⟨⟨h, res, size⟩, hc, heq⟩ := Option.map_eq_some_iff.mp hp
  obtain ⟨hm, ha, hn, haff⟩ := choose_eq_some hc
  have hsz := affordable_sized haff hn
  cases heq
  exact ⟨h, hm, _, rfl, ha, hsz, rfl⟩

theorem placeOne_eq_none_iff : hs.placeOne p avoid = none ↔ ∀ h ∈ hs.hosts, ¬ hs.CouldTake p h := by
  rw [placeOne, Option.map_eq_none_iff, choose_eq_none_iff]

theorem placeAvoiding_succ_eq_nil_iff (hs : HostSet) (p : Pool) (n : Nat)
    (avoid : String → Bool) :
    (hs.placeAvoiding p (n + 1) avoid).1 = [] ↔ ∀ h ∈ hs.hosts, ¬ hs.CouldTake p h := by
  rw [← placeOne_eq_none_iff, placeAvoiding]
  cases hs.placeOne p avoid with
  | none => simp
  | some r => simp

end HostSet
end Zoomies.Scheduler
