import Zoomies.ControllerSizing
import Zoomies.SchedulerReserveFacts
import Zoomies.SchedulerDecide

/-! The size of a runner as the scheduler and the backend see it. -/
namespace Zoomies.Controller
open Zoomies.Go Zoomies.Store Zoomies.Scheduler Zoomies.Backend

theorem split_shares {r : Resources} {c m : Int} :
    (r.splitWithDaemonShares c m).1.cpus + (r.splitWithDaemonShares c m).2.cpus =
        (if 0 < r.cpus then r.cpus else r.cpus * 2) ∧
      (r.splitWithDaemonShares c m).1.memoryMB + (r.splitWithDaemonShares c m).2.memoryMB =
        if 0 < r.memoryMB then r.memoryMB else r.memoryMB * 2 := by
  unfold Resources.splitWithDaemonShares
  dsimp only
  constructor
  · split
    · split <;> ring
    · ring
  · split
    · split <;> ring
    · ring

theorem pair_sum {α : Type} [Ring α] [LinearOrder α] {x runner daemon : α} {typed : Bool}
    (hsplit : runner + daemon = if 0 < x then x else x * 2) :
    (if typed then x else runner) + (if typed then x else daemon) =
      if typed = false ∧ 0 < x then x else x * 2 := by
  cases typed with
  | true => simp [mul_two]
  | false => simpa using hsplit

theorem containers_pair {s : Spec} (hd : s.dockerMode = .dind) :
    s.containerCPUs = (if s.resourcesSource = .host ∧ s.cpuTyped = false ∧ 0 < s.resources.cpus then
        s.resources.cpus
      else s.resources.cpus * 2) ∧
    s.containerMemoryMB =
      if s.resourcesSource = .host ∧ s.memoryTyped = false ∧ 0 < s.resources.memoryMB then
        s.resources.memoryMB
      else s.resources.memoryMB * 2 := by
  rw [Spec.containerCPUs, Spec.containerMemoryMB, if_pos hd, if_pos hd, pairLimits]
  by_cases hs : s.resourcesSource = .host
  · simp only [hs, ne_eq, not_true_eq_false, ↓reduceIte, true_and]
    exact ⟨pair_sum split_shares.1, pair_sum split_shares.2⟩
  · simp only [hs, ne_eq, not_false_eq_true, ↓reduceIte, false_and, mul_two, and_self]

def hostDecided (p : Pool) (res : Resources) : Prop :=
  (p.resources.cpus ≤ 0 ∧ 0 < res.cpus) ∨ (p.resources.memoryMB ≤ 0 ∧ 0 < res.memoryMB)

theorem sizedByHost_hostSource {b : Bool} {s : AllocationSource} :
    sizedByHost (hostSource b s) = true := by
  unfold hostSource
  split <;> rfl

theorem defaultCPUs_pos {p : Pool} {h : Host}
    (hpos : 0 < max (slotSize p h).cpus (minimumSlot p).cpus) : 0 < Scheduler.defaultCPUs p h := by
  unfold Scheduler.defaultCPUs
  dsimp only
  split
  · rename_i hc
    exact_mod_cast hc.1
  · exact hpos

def standardSized (p : Pool) (size : Resources × AllocationSource) : Prop :=
  (size.1.cpus = p.resources.cpus ∨ p.resources.cpus ≤ 0 ∧ 0 < size.1.cpus) ∧
  (size.1.memoryMB = p.resources.memoryMB ∨ p.resources.memoryMB ≤ 0 ∧ 0 < size.1.memoryMB) ∧
  (hostDecided p size.1 ∧ sizedByHost size.2 = true ∨
    size.1.cpus = p.resources.cpus ∧ size.1.memoryMB = p.resources.memoryMB ∧
      size.2 = if 0 < p.resources.cpus ∨ 0 < p.resources.memoryMB then .pool else .unset)

theorem allocation_spec (p : Pool) (h : Host) (defaults : Bool) :
    standardSized p (allocation p h defaults) := by
  by_cases hoff : (!defaults) = true ∨ p.backend = .process
  · have heq : allocation p h defaults = (p.resources,
        if 0 < p.resources.cpus ∨ 0 < p.resources.memoryMB then .pool else .unset) := by
      unfold allocation
      rw [if_pos hoff]
    rw [heq]
    exact ⟨.inl rfl, .inl rfl, .inr ⟨rfl, rfl, rfl⟩⟩
  unfold allocation
  dsimp only
  rw [if_neg hoff]
  generalize hcpu : (decide (p.resources.cpus ≤ 0) && h.allocatable.cpusKnown &&
    (hostLimits h (sizedOn p h).backend).cpu &&
    decide (max (slotSize (sizedOn p h) h).cpus (minimumSlot (sizedOn p h)).cpus > 0)) = byCPU
  generalize hmem : (decide (p.resources.memoryMB ≤ 0) && h.allocatable.memoryKnown &&
    (hostLimits h (sizedOn p h).backend).memory &&
    decide (defaultMemoryMB (sizedOn p h) h > 0)) = byMemory
  -- a field the host decides is one the pool left to it, and what it is given is positive
  have hcpu' : byCPU = true → p.resources.cpus ≤ 0 ∧ 0 < Scheduler.defaultCPUs (sizedOn p h) h := by
    intro hb
    rw [← hcpu] at hb
    simp only [Bool.and_eq_true, decide_eq_true_eq] at hb
    exact ⟨hb.1.1.1, defaultCPUs_pos hb.2⟩
  have hmem' : byMemory = true → p.resources.memoryMB ≤ 0 ∧
      0 < defaultMemoryMB (sizedOn p h) h := by
    intro hb
    rw [← hmem] at hb
    simp only [Bool.and_eq_true, decide_eq_true_eq] at hb
    exact ⟨hb.1.1.1, hb.2⟩
  refine ⟨?_, ?_, ?_⟩
  · cases byCPU with
    | true => exact .inr (hcpu' rfl)
    | false => exact .inl rfl
  · cases byMemory with
    | true => exact .inr (hmem' rfl)
    | false => exact .inl rfl
  cases byMemory with
  | true => exact .inl ⟨.inr (hmem' rfl), sizedByHost_hostSource⟩
  | false =>
    cases byCPU with
    | true => exact .inl ⟨.inl (hcpu' rfl), sizedByHost_hostSource⟩
    | false => exact .inr ⟨rfl, rfl, rfl⟩

section
variable {fleet : Runners} {defaults : Bool} {pool : Pool} {h : Host} {a : Action}

theorem createRunnerSize_standard (hs : a.size = none) :
    standardSized pool (createRunnerSize fleet defaults pool h a) := by
  have hspec := allocation_spec (sizingPool pool fleet) h defaults
  unfold createRunnerSize
  simp only [hs]
  exact hspec

theorem createRunnerSize_sized {size : Resources} (hs : a.size = some size) :
    (createRunnerSize fleet defaults pool h a).1.cpus = size.cpus ∧
      (createRunnerSize fleet defaults pool h a).1.memoryMB = size.memoryMB ∧
      ((createRunnerSize fleet defaults pool h a).2 = .reduced ∨
        (createRunnerSize fleet defaults pool h a).2 = .history) := by
  unfold createRunnerSize
  simp only [hs]
  refine ⟨trivial, trivial, ?_⟩
  cases a.sizedFromHistory with
  | true => exact .inr rfl
  | false => exact .inl rfl

theorem wireSource_of_host {s : AllocationSource} (hs : sizedByHost s = true) :
    wireSource s pool = .host := by
  cases s <;> first | rfl | cases hs

theorem wireSource_of_sized {s : AllocationSource} (hs : s = .reduced ∨ s = .history)
    (hd : pool.dockerMode = .dind) : wireSource s pool =
      if pool.resources.cpus ≤ 0 ∧ pool.resources.memoryMB ≤ 0 then .host else s := by
  rcases hs with rfl | rfl <;> simp [wireSource, hd]

end

def slotGivenTwice (pool : Pool) (a : Action) : Prop :=
  pool.dockerMode = .dind ∧ ∃ size ∈ a.size,
    (0 < pool.resources.cpus ∧ pool.resources.memoryMB ≤ 0 ∧ 0 < size.memoryMB) ∨
    (pool.resources.cpus ≤ 0 ∧ 0 < pool.resources.memoryMB ∧ 0 < size.cpus)

section
variable {p : Pool} {h : Host} {r : Runner}

theorem le_runnerGuarantee :
    (0 < r.allocatedCPUs → r.allocatedCPUs * cpuFactor p ≤ (runnerGuarantee p h r).cpus) ∧
      (0 < r.allocatedMemoryMB →
        r.allocatedMemoryMB * memoryFactor p ≤ (runnerGuarantee p h r).memoryMB) := by
  constructor
  all_goals
    intro hr
    unfold runnerGuarantee
    simp only [gt_iff_lt, hr, ↓reduceIte]
    split
    · exact le_rfl
    · exact le_max_right _ _

theorem runnerGuarantee_of_sized
    (hs : r.allocationSource = .reduced ∨ r.allocationSource = .history) :
    (0 < r.allocatedCPUs → (runnerGuarantee p h r).cpus = r.allocatedCPUs * cpuFactor p) ∧
      (0 < r.allocatedMemoryMB →
        (runnerGuarantee p h r).memoryMB = r.allocatedMemoryMB * memoryFactor p) := by
  constructor <;> intro hr <;> simp [runnerGuarantee, hr, hs]

end

theorem cpuFactor_of_typed_pair {p : Pool} (hd : p.dockerMode = .dind) (hc : 0 < p.resources.cpus) :
    cpuFactor p = 2 := by
  simp [cpuFactor, fieldFactor, hd, hc]

theorem memoryFactor_of_typed_pair {p : Pool} (hd : p.dockerMode = .dind)
    (hm : 0 < p.resources.memoryMB) : memoryFactor p = 2 := by
  simp [memoryFactor, fieldFactor, hd, hm]

section
variable {fleet : Runners} {defaults : Bool} {pool : Pool} {h : Host} {a : Action}

theorem wireSource_of_hostDecided (hno : ¬ slotGivenTwice pool a) (hd : pool.dockerMode = .dind)
    (hdec : hostDecided pool (createRunnerSize fleet defaults pool h a).1) :
    wireSource (createRunnerSize fleet defaults pool h a).2 pool = .host := by
  cases hs : a.size with
  | none =>
    obtain ⟨-, -, hhost | ⟨hc, hm, -⟩⟩ := createRunnerSize_standard hs
    · exact wireSource_of_host hhost.2
    rw [hostDecided, hc, hm] at hdec
    rcases hdec with ⟨hu, hl⟩ | ⟨hu, hl⟩
    · exact absurd hl (not_lt.mpr hu)
    · exact absurd hl (not_lt.mpr hu)
  | some size =>
    obtain ⟨hc, hm, hsource⟩ := createRunnerSize_sized hs
    rw [hostDecided, hc, hm] at hdec
    -- were the other field typed, the slot would be given twice
    have hboth : pool.resources.cpus ≤ 0 ∧ pool.resources.memoryMB ≤ 0 := by
      rcases hdec with ⟨hu, hl⟩ | ⟨hu, hl⟩
      · refine ⟨hu, ?_⟩
        by_contra ht
        exact hno ⟨hd, size, hs, .inr ⟨hu, not_le.mp ht, hl⟩⟩
      refine ⟨?_, hu⟩
      by_contra ht
      exact hno ⟨hd, size, hs, .inl ⟨not_le.mp ht, hu, hl⟩⟩
    rw [wireSource_of_sized hsource hd, if_pos hboth]

/-- A slot of the host is charged once, and a typed figure for each of the two containers. -/
theorem pair_le {α : Type} [Ring α] [LinearOrder α] {x factor : α}
    {host : Prop} {typed : Bool} [Decidable host] (hx : 0 < x) (hhost : typed = false → host)
    (hone : typed = false → factor = 1) (htwo : typed = true → factor = 2) :
    (if host ∧ typed = false ∧ 0 < x then x else x * 2) ≤ x * factor := by
  cases typed with
  | true => rw [if_neg (fun hb => nomatch hb.2.1), htwo rfl]
  | false => rw [if_pos ⟨hhost rfl, rfl, hx⟩, hone rfl, mul_one]

theorem containers_le (hno : ¬ slotGivenTwice pool a) :
    let size := (createRunnerSize fleet defaults pool h a).1
    let spec := finishCreateRunner fleet defaults pool h a
    (0 < size.cpus → spec.containerCPUs ≤ size.cpus * cpuFactor pool) ∧
      (0 < size.memoryMB → spec.containerMemoryMB ≤ size.memoryMB * memoryFactor pool) := by
  intro size spec
  by_cases hd : pool.dockerMode = .dind
  · obtain ⟨hcpus, hmemory⟩ := containers_pair (s := spec) hd
    rw [hcpus, hmemory]
    refine ⟨fun hl => pair_le hl (fun hu => ?_) (fun hu => ?_) fun ht => ?_,
      fun hl => pair_le hl (fun hu => ?_) (fun hu => ?_) fun ht => ?_⟩
    · exact wireSource_of_hostDecided hno hd (.inl ⟨not_lt.mp (of_decide_eq_false hu), hl⟩)
    · rw [cpuFactor_of_untyped pool (not_lt.mp (of_decide_eq_false hu)), Int.cast_one]
    · rw [cpuFactor_of_typed_pair hd (of_decide_eq_true ht), Int.cast_ofNat]
    · exact wireSource_of_hostDecided hno hd (.inr ⟨not_lt.mp (of_decide_eq_false hu), hl⟩)
    · exact memoryFactor_of_untyped pool (not_lt.mp (of_decide_eq_false hu))
    · exact memoryFactor_of_typed_pair hd (of_decide_eq_true ht)
  · simp [size, spec, Spec.containerCPUs, Spec.containerMemoryMB, finishCreateRunner, cpuFactor,
      memoryFactor, fieldFactor, hd]

variable (fleet defaults pool h a)

def withinCharge : Prop :=
  let spec := finishCreateRunner fleet defaults pool h a
  let charge := runnerGuarantee (sizingPool pool fleet) h (createRunner fleet defaults pool h a)
  (0 < spec.resources.cpus → spec.containerCPUs ≤ charge.cpus) ∧
    (0 < spec.resources.memoryMB → spec.containerMemoryMB ≤ charge.memoryMB)

instance : Decidable (withinCharge fleet defaults pool h a) := inferInstanceAs (Decidable (_ ∧ _))

variable {fleet defaults pool h a}

theorem withinCharge_of_not (hno : ¬ slotGivenTwice pool a) :
    withinCharge fleet defaults pool h a := by
  constructor
  · intro hl
    exact ((containers_le hno).1 hl).trans (le_runnerGuarantee.1 hl)
  intro hl
  exact ((containers_le hno).2 hl).trans (le_runnerGuarantee.2 hl)

variable (fleet defaults h) in
theorem finishCreateRunner_not_host {size : Resources} (hs : a.size = some size)
    (hd : pool.dockerMode = .dind)
    (htyped : ¬(pool.resources.cpus ≤ 0 ∧ pool.resources.memoryMB ≤ 0)) :
    (finishCreateRunner fleet defaults pool h a).resourcesSource ≠ .host := by
  obtain ⟨-, -, hsource⟩ := createRunnerSize_sized hs
  have hwire := wireSource_of_sized hsource hd
  rw [if_neg htyped] at hwire
  change wireSource (createRunnerSize fleet defaults pool h a).2 pool ≠ .host
  rw [hwire]
  rcases hsource with he | he <;> rw [he] <;> exact AllocationSource.noConfusion

/-- A slot handed whole to both halves passes the charge. -/
theorem not_withinCharge (hbad : slotGivenTwice pool a) :
    ¬ withinCharge fleet defaults pool h a := by
  obtain ⟨hd, size, hs, hfield⟩ := hbad
  obtain ⟨hc, hm, hsource⟩ := createRunnerSize_sized hs
  rintro ⟨hcpu, hmem⟩
  rcases hfield with ⟨htyped, hu, hpos⟩ | ⟨hu, htyped, hpos⟩
  · -- memory is the host's: both containers get the whole of a figure charged once
    have hwire := finishCreateRunner_not_host fleet defaults h hs hd
      (fun hb => absurd hb.1 (not_le.mpr htyped))
    have hlimit : 0 < (finishCreateRunner fleet defaults pool h a).resources.memoryMB := by
      change 0 < (createRunnerSize fleet defaults pool h a).1.memoryMB
      rw [hm]
      exact hpos
    have hle := hmem hlimit
    rw [(containers_pair hd).2, if_neg (fun hb => hwire hb.1),
      (runnerGuarantee_of_sized hsource).2 hlimit,
      memoryFactor_of_untyped (sizingPool pool fleet) hu, mul_one] at hle
    change (finishCreateRunner fleet defaults pool h a).resources.memoryMB * 2 ≤
      (finishCreateRunner fleet defaults pool h a).resources.memoryMB at hle
    omega
  · have hwire := finishCreateRunner_not_host fleet defaults h hs hd
      (fun hb => absurd hb.2 (not_le.mpr htyped))
    have hlimit : 0 < (finishCreateRunner fleet defaults pool h a).resources.cpus := by
      change 0 < (createRunnerSize fleet defaults pool h a).1.cpus
      rw [hc]
      exact hpos
    have hle := hcpu hlimit
    rw [(containers_pair hd).1, if_neg (fun hb => hwire hb.1),
      (runnerGuarantee_of_sized hsource).1 hlimit,
      cpuFactor_of_untyped (sizingPool pool fleet) hu, Int.cast_one, mul_one] at hle
    change (finishCreateRunner fleet defaults pool h a).resources.cpus * 2 ≤
      (finishCreateRunner fleet defaults pool h a).resources.cpus at hle
    linarith

end

/-- A runner's containers stay within its host's charge exactly when it is not a mixed pair
given a size of its own. -/
theorem withinCharge_iff (fleet : Runners) (defaults : Bool) (pool : Pool) (h : Host)
    (a : Action) : withinCharge fleet defaults pool h a ↔ ¬ slotGivenTwice pool a := by
  constructor
  · intro hw hbad
    exact not_withinCharge hbad hw
  · intro hno
    exact withinCharge_of_not hno

def pairHost : Host where
  id := "h1"
  capacity := 2
  backends := ["docker"]
  backendInfo := [{ kind := .docker, available := true, supportsDinD := true, cpus := 8,
                    limits := { known := true, cpu := true, memory := true } }]
  cpus := 8
  memoryMB := 16384
  lastHeartbeat := hour

def mixedPool : Pool where
  id := "p1"
  name := "linux"
  enabled := true
  minRunners := 2
  maxRunners := 2
  dockerMode := .dind
  resources := { cpus := 3, minCPUs := 1 / 2 }

def mixedFleet : Snapshot where
  now := hour
  pools := [mixedPool]
  hosts := [pairHost]
  distinct := by constructor <;> decide

/-- The second runner is reduced, and its containers hold twice the memory the host is charged. -/
theorem mixedFleet_not_withinCharge :
    ∃ a ∈ mixedFleet.decide.actions, a.kind = .create ∧ a.hostID = pairHost.id ∧
      a.size.isSome = true ∧ ¬ withinCharge {} true mixedPool pairHost a := by
  decide +kernel

end Zoomies.Controller
