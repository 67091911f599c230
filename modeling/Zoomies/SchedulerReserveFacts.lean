import Zoomies.SchedulerHostSet
import Mathlib.Tactic.Positivity

/-! A charge is never negative, the minimum never above the standard, and a reduced runner fits
where its minimum does. -/
namespace Zoomies.Scheduler
open Zoomies.Go Zoomies.Store

theorem cpuEpsilon_pos : 0 < cpuEpsilon := by norm_num [cpuEpsilon]

variable (a b : Reservation)

@[simp] theorem Reservation.add_cpus : (a + b).cpus = a.cpus + b.cpus := rfl

@[simp] theorem Reservation.add_memoryMB : (a + b).memoryMB = a.memoryMB + b.memoryMB := rfl

@[simp] theorem Reservation.add_diskMB : (a + b).diskMB = a.diskMB + b.diskMB := rfl

@[simp] theorem Reservation.sub_cpus : (a - b).cpus = a.cpus - b.cpus := rfl

@[simp] theorem Reservation.sub_memoryMB : (a - b).memoryMB = a.memoryMB - b.memoryMB := rfl

@[simp] theorem Reservation.sub_diskMB : (a - b).diskMB = a.diskMB - b.diskMB := rfl

@[simp] theorem Reservation.zero_cpus : (0 : Reservation).cpus = 0 := rfl

@[simp] theorem Reservation.zero_memoryMB : (0 : Reservation).memoryMB = 0 := rfl

@[simp] theorem Reservation.zero_diskMB : (0 : Reservation).diskMB = 0 := rfl

instance : Neg Reservation := ⟨fun a => ⟨-a.cpus, -a.memoryMB, -a.diskMB⟩⟩

instance : AddCommGroup Reservation where
  add_assoc a b c := by ext <;> simp [add_assoc]
  zero_add a := by ext <;> simp
  add_zero a := by ext <;> simp
  neg_add_cancel a := by
    ext
    · exact neg_add_cancel a.cpus
    · exact neg_add_cancel a.memoryMB
    · exact neg_add_cancel a.diskMB
  add_comm a b := by ext <;> simp [add_comm]
  sub_eq_add_neg a b := by
    ext
    · exact sub_eq_add_neg a.cpus b.cpus
    · exact sub_eq_add_neg a.memoryMB b.memoryMB
    · exact sub_eq_add_neg a.diskMB b.diskMB
  nsmul := nsmulRec
  zsmul := zsmulRec

section
variable (p : Pool) (h : Host)

@[simp] theorem sizedOn_cpus : (sizedOn p h).resources.cpus = p.resources.cpus := rfl

@[simp] theorem sizedOn_memoryMB : (sizedOn p h).resources.memoryMB = p.resources.memoryMB := rfl

@[simp] theorem sizedOn_dockerMode : (sizedOn p h).dockerMode = p.dockerMode := rfl

@[simp] theorem cpuFactor_sizedOn : cpuFactor (sizedOn p h) = cpuFactor p := rfl

@[simp] theorem memoryFactor_sizedOn : memoryFactor (sizedOn p h) = memoryFactor p := rfl

@[simp] theorem grantFor_sizedOn (c : Reservation) : grantFor (sizedOn p h) c = grantFor p c := rfl

theorem raisedMinimum_idem {α : Type} [LinearOrder α] [Zero α] (own host typed : α) :
    raisedMinimum (raisedMinimum own host typed) host typed = raisedMinimum own host typed := by
  by_cases hc : (host ≤ own || (decide (typed > 0) && decide (host > typed))) = true
  · simp [raisedMinimum, hc]
  have hr : raisedMinimum own host typed = host := if_neg hc
  rw [hr]
  simp only [raisedMinimum, le_refl, decide_true, Bool.true_or, ↓reduceIte]

@[simp] theorem sizedOn_sizedOn : sizedOn (sizedOn p h) h = sizedOn p h := by
  simp only [sizedOn, raisedMinimum_idem]

@[simp] theorem reserve_sizedOn : reserve (sizedOn p h) h = reserve p h := by
  simp only [reserve, sizedOn_sizedOn]

@[simp] theorem minimumReserve_sizedOn : minimumReserve (sizedOn p h) h = minimumReserve p h := by
  simp [minimumReserve]

@[simp] theorem reducedCharge_sizedOn (left : Reservation) (known : HostAllocation) :
    reducedCharge (sizedOn p h) h left known = reducedCharge p h left known := by
  simp [reducedCharge]

end

theorem fieldFactor_cases {p : Pool} {typed : Bool} :
    fieldFactor p typed = 1 ∨ fieldFactor p typed = 2 := by
  unfold fieldFactor
  split
  · exact .inr rfl
  · exact .inl rfl

variable (p : Pool) (h : Host)

theorem cpuFactor_cases : cpuFactor p = 1 ∨ cpuFactor p = 2 := fieldFactor_cases

theorem memoryFactor_cases : memoryFactor p = 1 ∨ memoryFactor p = 2 :=
  fieldFactor_cases

theorem cpuFactor_of_untyped (h : p.resources.cpus ≤ 0) : cpuFactor p = 1 := by
  simp [cpuFactor, fieldFactor, not_lt.mpr h]

theorem memoryFactor_of_untyped (h : p.resources.memoryMB ≤ 0) : memoryFactor p = 1 := by
  simp [memoryFactor, fieldFactor, not_lt.mpr h]

theorem share_nonneg {total : ℚ} {capacity : Int} : 0 ≤ share total capacity := by
  unfold share
  split
  · exact le_rfl
  rename_i hc
  simp only [Bool.or_eq_true, decide_eq_true_eq, not_or, not_lt, not_le] at hc
  have hcap : (0 : ℚ) < capacity := by exact_mod_cast (by omega : (0 : Int) < capacity)
  exact (div_pos hc.2 hcap).le

theorem reserve_cpus_nonneg : 0 ≤ (reserve p h).cpus := by
  unfold reserve
  dsimp only
  split
  · refine le_max_of_le_left ?_
    split
    · rename_i hs
      exact hs.le
    · exact share_nonneg
  rename_i hc
  have hpos := (not_le.mp hc).le
  split
  · exact mul_nonneg hpos (by norm_num)
  · exact hpos

theorem reserve_memoryMB_nonneg : 0 ≤ (reserve p h).memoryMB := by
  unfold reserve
  dsimp only
  split
  · refine le_max_of_le_left ?_
    split
    · omega
    · exact truncate_nonneg share_nonneg
  · split <;> omega

theorem reserve_diskMB_pos : 0 < (reserve p h).diskMB := by
  unfold reserve runnerDiskMB
  dsimp only
  split
  · norm_num
  · split <;> omega

theorem minimumReserve_of_not_reducible {p : Pool} {h : Host}
    (hr : (sizedOn p h).resources.reducible = false) : minimumReserve p h = reserve p h := by
  simp [minimumReserve, hr]

def lowered {α : Type} [LinearOrder α] [Zero α] (stated typed own share standard : α) : α :=
  if stated > 0 then min standard (if typed > 0 then own else max own share) else standard

theorem minimumReserve_of_reducible {p : Pool} {h : Host}
    (hr : (sizedOn p h).resources.reducible = true) :
    (minimumReserve p h).cpus = lowered (sizedOn p h).resources.minCPUs p.resources.cpus
        ((sizedOn p h).resources.minCPUs * cpuFactor p) (shareFloor (sizedOn p h)).cpus
        (reserve p h).cpus ∧
      (minimumReserve p h).memoryMB = lowered (sizedOn p h).resources.minMemoryMB
        p.resources.memoryMB ((sizedOn p h).resources.minMemoryMB * memoryFactor p)
        (shareFloor (sizedOn p h)).memoryMB (reserve p h).memoryMB := by
  simp only [minimumReserve, hr, Bool.not_true, Bool.false_eq_true, ↓reduceIte, reserve_sizedOn]
  exact ⟨rfl, rfl⟩

@[simp] theorem minimumReserve_diskMB : (minimumReserve p h).diskMB = (reserve p h).diskMB := by
  cases hr : (sizedOn p h).resources.reducible with
  | false => rw [minimumReserve_of_not_reducible hr]
  | true =>
    simp [minimumReserve, hr]

section
variable {α : Type} [LinearOrder α] [Zero α] {stated typed own share standard least : α}
  (hown : 0 < stated → least ≤ own)
include hown

theorem le_raised (hs : 0 < stated) : least ≤ if typed > 0 then own else max own share := by
  split
  · exact hown hs
  · exact le_max_of_le_left (hown hs)

theorem lowered_bounds (hstandard : least ≤ standard) :
    least ≤ lowered stated typed own share standard ∧
      lowered stated typed own share standard ≤ standard := by
  unfold lowered
  split
  · rename_i hs
    exact ⟨le_min hstandard (le_raised hown hs), min_le_left _ _⟩
  · exact ⟨hstandard, le_rfl⟩

theorem le_lowered (hlt : lowered stated typed own share standard < standard) :
    least ≤ lowered stated typed own share standard := by
  unfold lowered at hlt ⊢
  split at hlt
  · rename_i hs
    rw [if_pos hs]
    rcases min_lt_iff.mp hlt with habove | habove
    · exact absurd habove (lt_irrefl _)
    · exact le_min ((le_raised hown hs).trans habove.le) (le_raised hown hs)
  · exact absurd hlt (lt_irrefl _)

end

theorem minimumReserve_bounds (p : Pool) (h : Host) :
    (0 ≤ (minimumReserve p h).cpus ∧ (minimumReserve p h).cpus ≤ (reserve p h).cpus) ∧
      0 ≤ (minimumReserve p h).memoryMB ∧
      (minimumReserve p h).memoryMB ≤ (reserve p h).memoryMB := by
  have hcpus := reserve_cpus_nonneg p h
  have hmemory := reserve_memoryMB_nonneg p h
  cases hr : (sizedOn p h).resources.reducible with
  | false =>
    rw [minimumReserve_of_not_reducible hr]
    exact ⟨⟨hcpus, le_rfl⟩, hmemory, le_rfl⟩
  | true =>
    obtain ⟨hc, hm⟩ := minimumReserve_of_reducible hr
    rw [hc, hm]
    constructor
    · refine lowered_bounds (fun hs => ?_) hcpus
      rcases cpuFactor_cases p with hf | hf <;> rw [hf] <;> push_cast <;> linarith
    · refine lowered_bounds (fun hs => ?_) hmemory
      rcases memoryFactor_cases p with hf | hf <;> rw [hf] <;> omega

theorem fits_iff {left want : Reservation} {known : HostAllocation} : fits left want known = true ↔
      (known.diskKnown = true → 0 < known.diskMB ∧ want.diskMB ≤ left.diskMB) ∧
      (known.cpusKnown = true → want.cpus ≤ left.cpus + cpuEpsilon) ∧
      (known.memoryKnown = true → want.memoryMB ≤ left.memoryMB) := by
  unfold fits
  cases known.diskKnown <;> cases known.cpusKnown <;> cases known.memoryKnown <;>
    simp [not_lt, not_le, and_assoc]

variable {left : Reservation} {known : HostAllocation}

theorem fits_mono {left' want want' : Reservation} (hf : fits left want known = true)
    (hd : want'.diskMB - left'.diskMB ≤ want.diskMB - left.diskMB)
    (hc : want'.cpus - left'.cpus ≤ want.cpus - left.cpus)
    (hm : want'.memoryMB - left'.memoryMB ≤ want.memoryMB - left.memoryMB) :
    fits left' want' known = true := by
  obtain ⟨h1, h2, h3⟩ := fits_iff.mp hf
  refine fits_iff.mpr ⟨?_, ?_, ?_⟩
  · intro hk
    obtain ⟨hp, hl⟩ := h1 hk
    exact ⟨hp, by omega⟩
  · intro hk
    have hl := h2 hk
    linarith
  intro hk
  have hl := h3 hk
  omega

theorem fits_minimumReserve {p : Pool} {h : Host} (hf : fits left (reserve p h) known = true) :
    fits left (minimumReserve p h) known = true := by
  obtain ⟨⟨-, hc⟩, -, hm⟩ := minimumReserve_bounds p h
  refine fits_mono hf ?_ ?_ ?_
  · rw [minimumReserve_diskMB]
  · linarith
  · omega

@[simp] theorem reducedCharge_diskMB {p : Pool} {h : Host} : (reducedCharge p h left known).diskMB = (reserve p h).diskMB := by
  simp [reducedCharge]

theorem floor_hundredths_le {left : ℚ} {f : Int} (hf : f = 1 ∨ f = 2) :
    (⌊left / f * 100 + cpuEpsilon⌋ : ℚ) / 100 * f ≤ left + cpuEpsilon := by
  have he := cpuEpsilon_pos
  have hl := Int.floor_le (left / f * 100 + cpuEpsilon)
  rcases hf with rfl | rfl
  · linarith
  · linarith

theorem tdiv_mul_le {left f : Int} (hl : 0 ≤ left) (hf : f = 1 ∨ f = 2) :
    left.tdiv f * f ≤ left := by
  rcases hf with rfl | rfl
  · simp
  · rw [Int.tdiv_eq_ediv_of_nonneg hl]
    omega

theorem reducedCharge_cpus {p : Pool} {h : Host} : (reducedCharge p h left known).cpus =
    if known.cpusKnown ∧ left.cpus + cpuEpsilon < (reserve p h).cpus ∧
        (minimumReserve p h).cpus < (reserve p h).cpus then
      max ((⌊left.cpus / cpuFactor p * 100 + cpuEpsilon⌋ : ℚ) / 100 * cpuFactor p)
        (minimumReserve p h).cpus
    else (reserve p h).cpus := by
  simp only [reducedCharge, reserve_sizedOn, minimumReserve_sizedOn, cpuFactor_sizedOn]

theorem reducedCharge_memoryMB {p : Pool} {h : Host} : (reducedCharge p h left known).memoryMB =
    if known.memoryKnown ∧ left.memoryMB < (reserve p h).memoryMB ∧
        (minimumReserve p h).memoryMB < (reserve p h).memoryMB then
      max (left.memoryMB.tdiv (memoryFactor p) * memoryFactor p) (minimumReserve p h).memoryMB
    else (reserve p h).memoryMB := by
  simp only [reducedCharge, reserve_sizedOn, minimumReserve_sizedOn, memoryFactor_sizedOn]

/-- What is left holds the charge, as the standard fits or the minimum is the standard. -/
theorem cut_le {α : Type} [LinearOrder α] {part low std left : α} (hpart : part ≤ left)
    (hlow : low ≤ left) : (if left < std ∧ low < std then max part low else std) ≤ left := by
  split
  · exact max_le hpart hlow
  rename_i hc
  rw [not_and_or, not_lt, not_lt] at hc
  rcases hc with hc | hc
  · exact hc
  · exact hc.trans hlow

theorem reducedCharge_cpus_le {p : Pool} {h : Host} (hk : known.cpusKnown = true)
    (hf : (minimumReserve p h).cpus ≤ left.cpus + cpuEpsilon) :
    (reducedCharge p h left known).cpus ≤ left.cpus + cpuEpsilon := by
  simp only [reducedCharge_cpus, hk, true_and]
  exact cut_le (floor_hundredths_le (cpuFactor_cases p)) hf

theorem reducedCharge_memoryMB_le {p : Pool} {h : Host} (hk : known.memoryKnown = true)
    (hf : (minimumReserve p h).memoryMB ≤ left.memoryMB) :
    (reducedCharge p h left known).memoryMB ≤ left.memoryMB := by
  have hn : 0 ≤ left.memoryMB := (minimumReserve_bounds p h).2.1.trans hf
  simp only [reducedCharge_memoryMB, hk, true_and]
  exact cut_le (tdiv_mul_le hn (memoryFactor_cases p)) hf

theorem fits_reducedCharge {p : Pool} {h : Host} (hf : fits left (minimumReserve p h) known = true) :
    fits left (reducedCharge p h left known) known = true := by
  obtain ⟨hd, hc, hm⟩ := fits_iff.mp hf
  refine fits_iff.mpr ⟨?_, ?_, ?_⟩
  · intro hk
    rw [reducedCharge_diskMB, ← minimumReserve_diskMB]
    exact hd hk
  · intro hk
    exact reducedCharge_cpus_le hk (hc hk)
  · intro hk
    exact reducedCharge_memoryMB_le hk (hm hk)

theorem reducedSize_eq (p : Pool) (h : Host) (left : Reservation) (known : HostAllocation) :
    reducedSize p h left known =
      if (sizedOn p h).resources.reducible = true ∧ fits left (minimumReserve p h) known = true then
        some (reducedCharge p h left known, grantFor p (reducedCharge p h left known))
      else none := by
  simp only [reducedSize, minimumReserve_sizedOn, reducedCharge_sizedOn, grantFor_sizedOn]
  cases hr : (sizedOn p h).resources.reducible with
  | false => simp
  | true =>
    cases hf : fits left (minimumReserve p h) known with
    | false => simp
    | true => simp [fits_reducedCharge hf]

theorem reducedCharge_cpus_nonneg {p : Pool} {h : Host} : 0 ≤ (reducedCharge p h left known).cpus := by
  rw [reducedCharge_cpus]
  split
  · exact le_max_of_le_right (minimumReserve_bounds p h).1.1
  · exact reserve_cpus_nonneg p h

theorem reducedCharge_memoryMB_nonneg {p : Pool} {h : Host} : 0 ≤ (reducedCharge p h left known).memoryMB := by
  rw [reducedCharge_memoryMB]
  split
  · exact le_max_of_le_right (minimumReserve_bounds p h).2.1
  · exact reserve_memoryMB_nonneg p h

end Zoomies.Scheduler
