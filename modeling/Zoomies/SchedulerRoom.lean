import Zoomies.SchedulerPlacementFacts

/-! How many runners of a pool an empty host holds, by division and one at a time, and what a runner
below its standard size is charged. -/
namespace Zoomies.Scheduler
open Zoomies.Go Zoomies.Store

section
inductive RoomLimit | unmeasured | profile | cpu | memory | disk | slots
  deriving DecidableEq

def SizeField.limit : SizeField → RoomLimit
  | .cpu => .cpu
  | .memory => .memory

structure HostRoom where
  slots : Int
  fits : Int
  room : Int
  limitedBy : RoomLimit
  deriving DecidableEq

variable (alloc : HostAllocation) (h : Host) (best : Option (Int × RoomLimit))

variable (want : Reservation) (n k : Int)

def consider (limit : RoomLimit) : Option (Int × RoomLimit) :=
  match best with
  | none => some (n, limit)
  | some (m, l) => if n < m then some (n, limit) else some (m, l)

def standardCount : Option (Int × RoomLimit) :=
  let best :=
    if alloc.cpusKnown ∧ want.cpus > 0 then
      consider none (truncate ((alloc.cpus + cpuEpsilon) / want.cpus)) .cpu
    else none
  let best :=
    if alloc.memoryKnown ∧ want.memoryMB > 0 then
      consider best (alloc.memoryMB.tdiv want.memoryMB) .memory
    else best
  if alloc.diskKnown ∧ want.diskMB > 0 then
    consider best (alloc.diskMB.tdiv want.diskMB) .disk
  else best

def restOf : Reservation where
  cpus := alloc.cpus - n * want.cpus
  memoryMB := alloc.memoryMB - n * want.memoryMB
  diskMB := alloc.diskMB - n * want.diskMB

def hostRoomFor (p : Pool) : HostRoom :=
  let slots := h.effectiveCapacity
  if (excludedBySize h p).isSome then ⟨slots, 0, 0, .profile⟩
  else
    let p := sizedOn p h
    match shareTooSmall h p with
    | some field => ⟨slots, 0, 0, field.limit⟩
    | none =>
      let alloc := h.allocatable
      if alloc.diskKnown ∧ alloc.diskMB ≤ 0 then ⟨slots, 0, 0, .disk⟩
      else
        let want := reserve p h
        match standardCount alloc want with
        | none => ⟨slots, slots, slots, .unmeasured⟩
        | some (n, limit) =>
          let n :=
            if minimumReserve p h ≠ want ∧
                (reducedSize p h (restOf alloc want n) alloc).isSome then n + 1
            else n
          let fits := max n 0
          ⟨slots, fits, min fits slots, if slots < fits then .slots else limit⟩

def atLeast : Prop :=
  ∀ c, best = some c → k ≤ c.1

theorem atLeast_none {k : Int} : atLeast none k := by
  intro c hc
  cases hc

theorem atLeast_some (l : RoomLimit) : atLeast (some (n, l)) k ↔ k ≤ n := by
  constructor
  · intro h
    exact h _ rfl
  intro h c hc
  cases hc
  exact h

theorem atLeast_consider (l : RoomLimit) :
    atLeast (consider best n l) k ↔ atLeast best k ∧ k ≤ n := by
  cases best with
  | none =>
    simp [consider, atLeast_some, atLeast_none]
  | some c =>
    obtain ⟨m, l'⟩ := c
    unfold consider
    dsimp only
    split
    · simp only [atLeast_some]
      omega
    · simp only [atLeast_some]
      omega

theorem atLeast_standardCount : atLeast (standardCount alloc want) k ↔
      (alloc.cpusKnown = true → want.cpus > 0 →
        k ≤ truncate ((alloc.cpus + cpuEpsilon) / want.cpus)) ∧
      (alloc.memoryKnown = true → want.memoryMB > 0 → k ≤ alloc.memoryMB.tdiv want.memoryMB) ∧
      (alloc.diskKnown = true → want.diskMB > 0 → k ≤ alloc.diskMB.tdiv want.diskMB) := by
  unfold standardCount
  dsimp only
  have hcpu : atLeast (if alloc.cpusKnown = true ∧ want.cpus > 0 then
      consider none (truncate ((alloc.cpus + cpuEpsilon) / want.cpus)) .cpu else none) k ↔
      (alloc.cpusKnown = true → want.cpus > 0 →
        k ≤ truncate ((alloc.cpus + cpuEpsilon) / want.cpus)) := by
    split
    · rename_i hc
      simp [atLeast_consider, atLeast_none, hc.1, hc.2]
    rename_i hc
    refine iff_of_true atLeast_none ?_
    intro hk hp
    exact absurd ⟨hk, hp⟩ hc
  have hmem : ∀ best, atLeast (if alloc.memoryKnown = true ∧ want.memoryMB > 0 then
      consider best (alloc.memoryMB.tdiv want.memoryMB) .memory else best) k ↔ atLeast best k ∧
        (alloc.memoryKnown = true → want.memoryMB > 0 → k ≤ alloc.memoryMB.tdiv want.memoryMB) := by
    intro best
    split
    · rename_i hc
      simp [atLeast_consider, hc.1, hc.2]
    · rename_i hc
      refine ⟨fun hb => ⟨hb, fun hk hp => absurd ⟨hk, hp⟩ hc⟩, fun hb => hb.1⟩
  split
  · rename_i hc
    rw [atLeast_consider, hmem, hcpu]
    simp [hc.1, hc.2, and_assoc]
  rename_i hc
  rw [hmem, hcpu]
  tauto

theorem succ_le_truncate_iff {total : ℚ} {want : ℚ} {k : Int} (hk : 0 ≤ k) (hw : 0 < want) :
    k + 1 ≤ truncate ((total + cpuEpsilon) / want) ↔ want ≤ total - k * want + cpuEpsilon := by
  rw [le_truncate_iff (by omega), le_div_iff₀ hw]
  push_cast
  constructor
  · intro h
    linarith
  · intro h
    linarith

theorem succ_le_tdiv_iff {total want : Int} {k : Int} (ht : 0 ≤ total) (hw : 0 < want) :
    k + 1 ≤ total.tdiv want ↔ want ≤ total - k * want := by
  rw [Int.tdiv_eq_ediv_of_nonneg ht, Int.le_ediv_iff_mul_le hw, add_mul, one_mul]
  constructor
  · omega
  · omega

theorem allocatable_cpus_nonneg : 0 ≤ h.allocatable.cpus := by
  unfold Host.allocatable
  split
  · exact le_max_right _ _
  · exact le_rfl

theorem allocatable_memoryMB_nonneg : 0 ≤ h.allocatable.memoryMB := by
  unfold Host.allocatable
  dsimp only
  split
  · exact le_max_right _ _
  · exact le_rfl

theorem allocatable_diskMB_nonneg : 0 ≤ h.allocatable.diskMB := by
  unfold Host.allocatable
  dsimp only
  split
  · exact le_max_right _ _
  · exact le_rfl

section
variable (alloc : HostAllocation) (want : Reservation) (k : Int)

theorem cpus_restOf_iff (hk : 0 ≤ k) (ha : 0 ≤ alloc.cpus) (hw : 0 ≤ want.cpus) :
    want.cpus ≤ (restOf alloc want k).cpus + cpuEpsilon ↔
      (want.cpus > 0 → k + 1 ≤ truncate ((alloc.cpus + cpuEpsilon) / want.cpus)) := by
  rcases hw.lt_or_eq with hpos | hzero
  · rw [succ_le_truncate_iff hk hpos]
    exact ⟨fun h _ => h, fun h => h hpos⟩
  -- a runner that asks for no CPU fits in whatever is left
  have he := cpuEpsilon_pos
  refine iff_of_true ?_ fun hpos => absurd hzero hpos.ne
  simp only [restOf, ← hzero, mul_zero, sub_zero]
  linarith

theorem memory_restOf_iff (ha : 0 ≤ alloc.memoryMB) (hw : 0 ≤ want.memoryMB) :
    want.memoryMB ≤ (restOf alloc want k).memoryMB ↔
      (want.memoryMB > 0 → k + 1 ≤ alloc.memoryMB.tdiv want.memoryMB) := by
  rcases hw.lt_or_eq with hpos | hzero
  · rw [succ_le_tdiv_iff ha hpos]
    exact ⟨fun h _ => h, fun h => h hpos⟩
  refine iff_of_true ?_ fun hpos => absurd hzero hpos.ne
  simp only [restOf, ← hzero, mul_zero, sub_zero]
  exact ha

theorem disk_restOf_iff (ha : 0 ≤ alloc.diskMB) (hw : 0 < want.diskMB) :
    want.diskMB ≤ (restOf alloc want k).diskMB ↔
      (want.diskMB > 0 → k + 1 ≤ alloc.diskMB.tdiv want.diskMB) := by
  rw [succ_le_tdiv_iff ha hw]
  exact ⟨fun h _ => h, fun h => h hw⟩

end

theorem fits_restOf_iff {h : Host} {p : Pool} {k : Int} (hk : 0 ≤ k)
    (hdisk : h.allocatable.diskKnown = true → 0 < h.allocatable.diskMB) :
    fits (restOf h.allocatable (reserve p h) k) (reserve p h) h.allocatable = true ↔
      atLeast (standardCount h.allocatable (reserve p h)) (k + 1) := by
  have hcpu := cpus_restOf_iff h.allocatable (reserve p h) k hk (allocatable_cpus_nonneg h)
    (reserve_cpus_nonneg p h)
  have hmemory := memory_restOf_iff h.allocatable (reserve p h) k (allocatable_memoryMB_nonneg h)
    (reserve_memoryMB_nonneg p h)
  have hdisks := disk_restOf_iff h.allocatable (reserve p h) k (allocatable_diskMB_nonneg h)
    (reserve_diskMB_pos p h)
  rw [fits_iff, atLeast_standardCount, hcpu, hmemory, hdisks]
  constructor
  · rintro ⟨h1, h2, h3⟩
    exact ⟨h2, h3, fun hknown => (h1 hknown).2⟩
  · rintro ⟨h2, h3, h1⟩
    exact ⟨fun hknown => ⟨hdisk hknown, h1 hknown⟩, h2, h3⟩

def minimumsAccepted (r : RunnerSize) : Prop :=
  (0 < r.cpus → minRunnerCPUs ≤ r.cpus) ∧ (0 < r.memoryMB → minRunnerMemoryMB ≤ r.memoryMB)

instance (r : RunnerSize) : Decidable (minimumsAccepted r) := inferInstanceAs (Decidable (_ ∧ _))

def poolMinimum (p : Pool) : RunnerSize := ⟨p.resources.minCPUs, p.resources.minMemoryMB⟩

theorem raisedMinimum_floor {α : Type} [LinearOrder α] [Zero α] {least own host typed : α}
    (hown : 0 < own → least ≤ own) (hhost : 0 < host → least ≤ host)
    (hm : 0 < raisedMinimum own host typed) : least ≤ raisedMinimum own host typed := by
  unfold raisedMinimum at hm ⊢
  split at hm <;> rename_i hc
  · rw [if_pos hc]
    exact hown hm
  · rw [if_neg hc]
    exact hhost hm

theorem minimumReserve_floor {p : Pool} {h : Host} (hp : minimumsAccepted (poolMinimum p))
    (hh : minimumsAccepted h.runnerProfile.minimum) :
    ((minimumReserve p h).cpus < (reserve p h).cpus → minRunnerCPUs ≤ (minimumReserve p h).cpus) ∧
    ((minimumReserve p h).memoryMB < (reserve p h).memoryMB →
      minRunnerMemoryMB ≤ (minimumReserve p h).memoryMB) := by
  cases hr : (sizedOn p h).resources.reducible with
  | false =>
    rw [minimumReserve_of_not_reducible hr]
    exact ⟨fun hlt => absurd hlt (lt_irrefl _), fun hlt => absurd hlt (lt_irrefl _)⟩
  | true =>
    obtain ⟨hc, hm⟩ := minimumReserve_of_reducible hr
    rw [hc, hm]
    constructor
    · refine le_lowered fun hs => ?_
      have hfloor : minRunnerCPUs ≤ (sizedOn p h).resources.minCPUs :=
        raisedMinimum_floor hp.1 hh.1 hs
      rcases cpuFactor_cases p with hf | hf <;> rw [hf] <;> push_cast <;> linarith
    · refine le_lowered fun hs => ?_
      have hfloor : minRunnerMemoryMB ≤ (sizedOn p h).resources.minMemoryMB :=
        raisedMinimum_floor hp.2 hh.2 hs
      rcases memoryFactor_cases p with hf | hf <;> rw [hf] <;> omega

theorem lt_floor_hundredths_add (left : ℚ) {f : Int} (hf : f = 1 ∨ f = 2) :
    left + cpuEpsilon * f / 100 < (⌊left / f * 100 + cpuEpsilon⌋ : ℚ) / 100 * f + f / 100 := by
  have hl := Int.lt_floor_add_one (left / f * 100 + cpuEpsilon)
  rcases hf with rfl | rfl
  · linarith
  · linarith

theorem lt_floor_hundredths {left : ℚ} {f : Int} (hf : f = 1 ∨ f = 2) :
    left - 1 / 50 < (⌊left / f * 100 + cpuEpsilon⌋ : ℚ) / 100 * f := by
  have he := cpuEpsilon_pos
  have hl := lt_floor_hundredths_add left hf
  rcases hf with rfl | rfl <;> push_cast at hl ⊢ <;> linarith

theorem lt_tdiv_mul_add {left f : Int} (hl : 0 ≤ left) (hf : f = 1 ∨ f = 2) :
    left < left.tdiv f * f + f := by
  rw [Int.tdiv_eq_ediv_of_nonneg hl]
  rcases hf with rfl | rfl <;> omega

section
variable {p : Pool} {h : Host} {left : Reservation} {known : HostAllocation}

theorem lt_reducedCharge_cpus (hk : known.cpusKnown = true)
    (hshort : left.cpus + cpuEpsilon < (reserve p h).cpus)
    (hmin : (minimumReserve p h).cpus < (reserve p h).cpus) :
    left.cpus - 1 / 50 < (reducedCharge p h left known).cpus := by
  rw [reducedCharge_cpus, if_pos ⟨hk, hshort, hmin⟩]
  exact lt_max_of_lt_left (lt_floor_hundredths (cpuFactor_cases p))

theorem lt_reducedCharge_memoryMB (hk : known.memoryKnown = true) (hl : 0 ≤ left.memoryMB)
    (hshort : left.memoryMB < (reserve p h).memoryMB)
    (hmin : (minimumReserve p h).memoryMB < (reserve p h).memoryMB) :
    left.memoryMB - 2 < (reducedCharge p h left known).memoryMB := by
  rw [reducedCharge_memoryMB, if_pos ⟨hk, hshort, hmin⟩]
  have hstep := lt_tdiv_mul_add hl (memoryFactor_cases p)
  rcases memoryFactor_cases p with hf | hf <;> rw [hf] at hstep ⊢ <;> omega

theorem short_field (hmin : fits left (minimumReserve p h) known = true)
    (hstd : fits left (reserve p h) known = false) :
    (known.cpusKnown = true ∧ left.cpus + cpuEpsilon < (reserve p h).cpus) ∨
      (known.memoryKnown = true ∧ left.memoryMB < (reserve p h).memoryMB) := by
  by_contra hno
  rw [not_or, not_and, not_and, not_lt, not_lt] at hno
  obtain ⟨hd, -, -⟩ := fits_iff.mp hmin
  rw [minimumReserve_diskMB] at hd
  rw [fits_iff.mpr ⟨hd, hno.1, hno.2⟩] at hstd
  cases hstd

theorem not_fits_after_reduced (hp : minimumsAccepted (poolMinimum p))
    (hh : minimumsAccepted h.runnerProfile.minimum)
    (hmin : fits left (minimumReserve p h) known = true)
    (hstd : fits left (reserve p h) known = false) :
    fits (left - reducedCharge p h left known) (minimumReserve p h) known = false := by
  obtain ⟨-, hcpu, hmem⟩ := fits_iff.mp hmin
  rw [Bool.eq_false_iff]
  intro hagain
  obtain ⟨-, hcpu', hmem'⟩ := fits_iff.mp hagain
  rcases short_field hmin hstd with ⟨hk, hs⟩ | ⟨hk, hs⟩
  · have hlt : (minimumReserve p h).cpus < (reserve p h).cpus := (hcpu hk).trans_lt hs
    have hfloor := (minimumReserve_floor hp hh).1 hlt
    have htaken := lt_reducedCharge_cpus hk hs hlt
    have hle := hcpu' hk
    rw [Reservation.sub_cpus] at hle
    have hquarter : minRunnerCPUs = 1 / 4 := rfl
    have heps : cpuEpsilon = 1 / 1000000 := rfl
    linarith
  · have hlt : (minimumReserve p h).memoryMB < (reserve p h).memoryMB := (hmem hk).trans_lt hs
    have hfloor := (minimumReserve_floor hp hh).2 hlt
    have hmb : minRunnerMemoryMB = 512 := rfl
    have hnonneg : 0 ≤ left.memoryMB := by
      have hle := hmem hk
      omega
    have htaken := lt_reducedCharge_memoryMB hk hnonneg hs hlt
    have hle := hmem' hk
    rw [Reservation.sub_memoryMB] at hle
    omega

end

end

section
variable (p : Pool) (h : Host) (left : Reservation) (known : HostAllocation)

structure MostSpared (charge : Reservation) : Prop where
  fits : fits left charge known = true
  diskMB : charge.diskMB = (minimumReserve p h).diskMB ∧ charge.diskMB = (reserve p h).diskMB
  cpus : (minimumReserve p h).cpus ≤ charge.cpus ∧ charge.cpus ≤ (reserve p h).cpus
  memoryMB : (minimumReserve p h).memoryMB ≤ charge.memoryMB ∧
    charge.memoryMB ≤ (reserve p h).memoryMB
  cpus_whole : known.cpusKnown = false ∨ (reserve p h).cpus ≤ left.cpus + cpuEpsilon →
    charge.cpus = (reserve p h).cpus
  memoryMB_whole : known.memoryKnown = false ∨ (reserve p h).memoryMB ≤ left.memoryMB →
    charge.memoryMB = (reserve p h).memoryMB
  -- fits allows one tolerance over what is left, and the rounding a hundredth of it
  cpus_most : charge.cpus < (reserve p h).cpus →
    left.cpus + cpuEpsilon * cpuFactor p / 100 < charge.cpus + cpuFactor p / 100
  memoryMB_most : charge.memoryMB < (reserve p h).memoryMB →
    Scheduler.fits left { charge with memoryMB := charge.memoryMB + memoryFactor p } known = false

/-- Either field of the charge: `part` of the standard where it is known to be short. -/
theorem cut_cases {α : Type} [LinearOrder α] (kn short : Prop) [Decidable kn] [Decidable short]
    {part : α} {low std : α} (hlow : low ≤ std) (hpart : kn → short → part ≤ std) :
    let charge := if kn ∧ short ∧ low < std then max part low else std
    (low ≤ charge ∧ charge ≤ std) ∧ (¬ kn ∨ ¬ short → charge = std) ∧
      (charge < std → kn ∧ short ∧ part ≤ charge) := by
  dsimp only
  split
  · rename_i hcut
    refine ⟨⟨le_max_right _ _, max_le (hpart hcut.1 hcut.2.1) hlow⟩, ?_, ?_⟩
    · intro hno
      exact absurd hno (not_or.mpr ⟨not_not.mpr hcut.1, not_not.mpr hcut.2.1⟩)
    · intro _
      exact ⟨hcut.1, hcut.2.1, le_max_left _ _⟩
  · exact ⟨⟨hlow, le_rfl⟩, fun _ => rfl, fun hless => absurd hless (lt_irrefl _)⟩

variable {p h left known}

theorem mostSpared_reducedCharge (hf : fits left (minimumReserve p h) known = true) :
    MostSpared p h left known (reducedCharge p h left known) := by
  obtain ⟨-, -, hm⟩ := fits_iff.mp hf
  obtain ⟨⟨-, hclow⟩, hmpos, hmlow⟩ := minimumReserve_bounds p h
  obtain ⟨hcpus, hcwhole, hcmost⟩ := cut_cases (known.cpusKnown = true)
    (left.cpus + cpuEpsilon < (reserve p h).cpus) hclow
    fun _ hshort => (floor_hundredths_le (cpuFactor_cases p)).trans hshort.le
  obtain ⟨hmemory, hmwhole, hmmost⟩ := cut_cases (known.memoryKnown = true)
    (left.memoryMB < (reserve p h).memoryMB) hmlow
    fun hk hshort => (tdiv_mul_le (hmpos.trans (hm hk)) (memoryFactor_cases p)).trans hshort.le
  rw [← reducedCharge_cpus] at hcpus hcwhole hcmost
  rw [← reducedCharge_memoryMB] at hmemory hmwhole hmmost
  rw [Bool.not_eq_true, not_lt] at hcwhole hmwhole
  refine ⟨fits_reducedCharge hf, ⟨by simp, by simp⟩, hcpus, hmemory, hcwhole, hmwhole, ?_, ?_⟩
  · intro hless
    have hstep := lt_floor_hundredths_add left.cpus (cpuFactor_cases p)
    linarith [(hcmost hless).2.2]
  intro hless
  obtain ⟨hk, -, hpart⟩ := hmmost hless
  rw [← Bool.not_eq_true, fits_iff]
  rintro ⟨-, -, hmore⟩
  have hstep := lt_tdiv_mul_add (hmpos.trans (hm hk)) (memoryFactor_cases p)
  have hroom : (reducedCharge p h left known).memoryMB + memoryFactor p ≤ left.memoryMB := hmore hk
  omega

end

theorem runnerGuarantee_of_row (p : Pool) (h : Host) {r : Runner} {grant : Resources}
    (hs : r.allocationSource = .reduced) (hc : r.allocatedCPUs = grant.cpus)
    (hm : r.allocatedMemoryMB = grant.memoryMB) :
    (0 < grant.cpus → (runnerGuarantee p h r).cpus = (sizeCharge p h (some grant)).cpus) ∧
      (0 < grant.memoryMB →
        (runnerGuarantee p h r).memoryMB = (sizeCharge p h (some grant)).memoryMB) := by
  constructor <;> intro hpos <;> simp [runnerGuarantee, sizeCharge, hs, hc, hm, hpos]

/-- A pool is reduced exactly where its minimum fits, to the most the host can spare, and the
runner's row gives the same charge back. -/
theorem reducedSize_exact (p : Pool) (h : Host) (left : Reservation) (known : HostAllocation) :
    ((reducedSize p h left known).isSome = true ↔
      (sizedOn p h).resources.reducible = true ∧ fits left (minimumReserve p h) known = true) ∧
    ∀ charge grant, reducedSize p h left known = some (charge, grant) →
      MostSpared p h left known charge ∧
      ∀ r : Runner, r.allocationSource = .reduced → r.allocatedCPUs = grant.cpus →
        r.allocatedMemoryMB = grant.memoryMB →
        (0 < grant.cpus → (runnerGuarantee p h r).cpus = charge.cpus) ∧
        (0 < grant.memoryMB → (runnerGuarantee p h r).memoryMB = charge.memoryMB) := by
  rw [reducedSize_eq]
  split
  · rename_i hif
    refine ⟨iff_of_true rfl hif, ?_⟩
    rintro charge grant heq
    obtain ⟨rfl, rfl⟩ := Prod.mk.inj (Option.some.inj heq)
    refine ⟨mostSpared_reducedCharge hif.2, ?_⟩
    intro r hs hcpus hmemory
    have hrow := runnerGuarantee_of_row p h hs hcpus hmemory
    rwa [sizeCharge_grantFor reducedCharge_diskMB
      memoryFactor_dvd_reducedCharge] at hrow
  · rename_i hif
    refine ⟨iff_of_false Bool.false_ne_true hif, ?_⟩
    rintro charge grant heq
    cases heq

/-- Just under three processors are left, which is three within the tolerance: the charge is a
hundredth less. -/
theorem reducedSize_hundredth_short : (reducedSize { resources := { cpus := 4, minCPUs := 1 } } {}
        { cpus := 3 - 1 / 2000000, memoryMB := 0, diskMB := runnerDiskMB }
        { cpusKnown := true }).map (fun s => s.1.cpus) = some (299 / 100) ∧
      fits { cpus := 3 - 1 / 2000000, memoryMB := 0, diskMB := runnerDiskMB }
        { cpus := 299 / 100 + 1 / 100 } { cpusKnown := true } = true ∧
      (299 / 100 + 1 / 100 : ℚ) ≤
        (reserve { resources := { cpus := 4, minCPUs := 1 } } {}).cpus := by
  refine ⟨by decide +kernel, by decide +kernel, by decide +kernel⟩

end Zoomies.Scheduler
