import Zoomies.ControllerSizingFacts

/-! The size of a runner as its row says, next to what its containers were given. -/
namespace Zoomies.Controller
open Zoomies.Store Zoomies.Scheduler

section
variable (fleet : Runners) (defaults : Bool) (pool : Pool) (h : Host) (a : Action)

def mixedLimited (r : Runner) : Prop :=
  (0 < pool.resources.cpus ∧ pool.resources.memoryMB ≤ 0 ∧ 0 < r.allocatedMemoryMB) ∨
    (pool.resources.cpus ≤ 0 ∧ 0 < pool.resources.memoryMB ∧ 0 < r.allocatedCPUs)

def rowsAgree : Prop :=
  let row := createRunner fleet defaults pool h a
  let spec := finishCreateRunner fleet defaults pool h a
  (∀ mb ∈ launchedMemoryMB pool row, mb = spec.containerMemoryMB) ∧
    grantedSize pool row = (spec.containerCPUs, spec.containerMemoryMB)

instance : Decidable (rowsAgree fleet defaults pool h a) := inferInstanceAs (Decidable (_ ∧ _))

variable {fleet defaults pool h a}

theorem launchedMemoryMB_pair {r : Runner} (hd : pool.dockerMode = .dind) :
    launchedMemoryMB pool r =
      if r.allocatedMemoryMB ≤ 0 then none else some (grantedSize pool r).2 := by
  unfold launchedMemoryMB grantedSize typedAllocation
  simp only [hd, ne_eq, not_true_eq_false, ↓reduceIte, true_and, Bool.or_eq_true,
    Bool.and_eq_true, beq_iff_eq, decide_eq_true_eq]
  split
  · rfl
  · split <;> rfl

theorem grantedSize_pair {r : Runner} (hd : pool.dockerMode = .dind) : grantedSize pool r =
      (if typedAllocation r (decide (pool.resources.cpus > 0)) then r.allocatedCPUs * 2
        else r.allocatedCPUs,
        if typedAllocation r (decide (pool.resources.memoryMB > 0)) then r.allocatedMemoryMB * 2
        else r.allocatedMemoryMB) := by
  rw [grantedSize, if_neg (not_not.mpr hd)]

variable {r : Runner}

variable {b : Bool} {α : Type}

theorem typedAllocation_of_host (hs : sizedByHost r.allocationSource = true) :
    typedAllocation r b = false := by
  unfold typedAllocation
  cases hr : r.allocationSource <;> rw [hr] at hs <;> first | rfl | cases hs

theorem typedAllocation_of_sized
    (hs : r.allocationSource = .reduced ∨ r.allocationSource = .history) :
    typedAllocation r b = b := by
  unfold typedAllocation
  rcases hs with hr | hr <;> rw [hr] <;> simp

theorem typedAllocation_of_pool (hc : 0 < pool.resources.cpus ∨ 0 < pool.resources.memoryMB) (hs : r.allocationSource =
      if 0 < pool.resources.cpus ∨ 0 < pool.resources.memoryMB then .pool else .unset) :
    typedAllocation r b = true := by
  rw [if_pos hc] at hs
  simp [typedAllocation, hs]

variable {typed : Prop}

/-- Where the host decides neither field of a pool that types the one. -/
theorem doubled_iff (hd : pool.dockerMode = .dind) [Decidable typed]
    (hhost : hostDecided pool (createRunnerSize fleet defaults pool h a).1 → ¬ typed)
    (hpool : (createRunnerSize fleet defaults pool h a).1.cpus = pool.resources.cpus →
      (createRunnerSize fleet defaults pool h a).1.memoryMB = pool.resources.memoryMB → typed)
    (htyped : typed → 0 < pool.resources.cpus ∨ 0 < pool.resources.memoryMB)
    (huntyped : ¬ typed → pool.resources.cpus ≤ 0 ∧ pool.resources.memoryMB ≤ 0) :
    typedAllocation (createRunner fleet defaults pool h a) (decide typed) = true ↔
      ¬(wireSource (createRunnerSize fleet defaults pool h a).2 pool = .host ∧ decide typed = false) := by
  cases hs : a.size with
  | none =>
    obtain ⟨-, -, ⟨hdec, hsource⟩ | ⟨hc, hm, hsource⟩⟩ :=
      createRunnerSize_standard hs
    · rw [typedAllocation_of_host hsource, wireSource_of_host hsource]
      simp [hhost hdec]
    have ht := hpool hc hm
    rw [typedAllocation_of_pool (htyped ht) hsource]
    simp [ht]
  | some size =>
    obtain ⟨-, -, hsource⟩ := createRunnerSize_sized hs
    rw [typedAllocation_of_sized hsource, decide_eq_true_eq]
    by_cases ht : typed
    · simp [ht]
    · rw [wireSource_of_sized hsource hd, if_pos (huntyped ht)]
      simp [ht]

variable (pool a) in
def figuresNonneg : Prop :=
  (0 ≤ pool.resources.cpus ∧ 0 ≤ pool.resources.memoryMB) ∧
    ∀ size ∈ a.size, 0 ≤ size.cpus ∧ 0 ≤ size.memoryMB

instance : Decidable (figuresNonneg pool a) := inferInstanceAs (Decidable (_ ∧ _))

theorem createRunnerSize_nonneg (hn : figuresNonneg pool a) :
    0 ≤ (createRunnerSize fleet defaults pool h a).1.cpus ∧
      0 ≤ (createRunnerSize fleet defaults pool h a).1.memoryMB := by
  obtain ⟨⟨hpc, hpm⟩, hsize⟩ := hn
  cases hs : a.size with
  | none =>
    obtain ⟨hc, hm, -⟩ := createRunnerSize_standard hs
    constructor
    · rcases hc with hc | ⟨-, hc⟩
      · exact hc ▸ hpc
      · exact hc.le
    rcases hm with hm | ⟨-, hm⟩
    · exact hm ▸ hpm
    · exact hm.le
  | some size =>
    obtain ⟨hc, hm, -⟩ := createRunnerSize_sized hs
    rw [hc, hm]
    exact hsize size hs

theorem given_eq [Ring α] [LinearOrder α] {x : α} {host : Prop} [Decidable typed]
    [Decidable host] (hx : 0 ≤ x) (hiff : 0 < x → (typed ↔ ¬(host ∧ b = false))) :
    (if typed then x * 2 else x) = if host ∧ b = false ∧ 0 < x then x else x * 2 := by
  rcases hx.lt_or_eq with hpos | hzero
  · by_cases hd : host ∧ b = false
    · rw [if_neg (fun ht => (hiff hpos).mp ht hd), if_pos ⟨hd.1, hd.2, hpos⟩]
    · rw [if_pos ((hiff hpos).mpr hd), if_neg (fun hb => hd ⟨hb.1, hb.2.1⟩)]
  · rw [← hzero]
    simp

theorem granted_eq (hd : pool.dockerMode = .dind) (hn : figuresNonneg pool a)
    (hno : ¬ mixedLimited pool (createRunner fleet defaults pool h a)) :
    grantedSize pool (createRunner fleet defaults pool h a) =
      ((finishCreateRunner fleet defaults pool h a).containerCPUs,
        (finishCreateRunner fleet defaults pool h a).containerMemoryMB) := by
  rw [grantedSize_pair hd, (containers_pair hd).1, (containers_pair hd).2]
  refine Prod.ext (given_eq (createRunnerSize_nonneg hn).1 fun hpos => ?_)
    (given_eq (createRunnerSize_nonneg hn).2 fun hpos => ?_)
  · refine doubled_iff hd ?_ (fun hc _ => hc ▸ hpos) .inl fun hu => ⟨not_lt.mp hu, ?_⟩
    · -- were the CPU typed, the host would have decided the memory beside it
      rintro (⟨hu, -⟩ | hb) ht
      · exact absurd ht (not_lt.mpr hu)
      · exact hno (.inl ⟨ht, hb⟩)
    by_contra ht
    exact hno (.inr ⟨not_lt.mp hu, not_le.mp ht, hpos⟩)
  · refine doubled_iff hd ?_ (fun _ hm => hm ▸ hpos) .inr fun hu => ⟨?_, not_lt.mp hu⟩
    · rintro (hb | ⟨hu, -⟩) ht
      · exact hno (.inr ⟨hb.1, ht, hb.2⟩)
      · exact absurd ht (not_lt.mpr hu)
    by_contra ht
    exact hno (.inl ⟨not_le.mp ht, not_lt.mp hu, hpos⟩)

theorem given_ne [Ring α] [LinearOrder α] [IsStrictOrderedRing α] {x : α}
    {host : Prop} [Decidable typed] [Decidable host] (hx : 0 < x) (htyped : ¬ typed)
    (hwhole : host → b = false → False) :
    (if typed then x * 2 else x) ≠ if host ∧ b = false ∧ 0 < x then x else x * 2 := by
  rw [if_neg htyped, if_neg (fun hb => hwhole hb.1 hb.2.1)]
  intro he
  rw [mul_two] at he
  exact hx.ne (left_eq_add.mp he).symm

/-- The typed field where the host's source covers both, the other where the runner has a size of
its own. -/
theorem granted_ne_of_mixed (hd : pool.dockerMode = .dind)
    (hmix : mixedLimited pool (createRunner fleet defaults pool h a)) :
    grantedSize pool (createRunner fleet defaults pool h a) ≠
      ((finishCreateRunner fleet defaults pool h a).containerCPUs,
        (finishCreateRunner fleet defaults pool h a).containerMemoryMB) := by
  rw [grantedSize_pair hd, (containers_pair hd).1, (containers_pair hd).2,
    ne_eq, Prod.mk.injEq, not_and_or]
  cases hs : a.size with
  | none =>
    obtain ⟨hc, hm, hrest⟩ := createRunnerSize_standard hs
    have hsource : sizedByHost (createRunnerSize fleet defaults pool h a).2 = true := by
      rcases hrest with hb | ⟨hb, hb', -⟩
      · exact hb.2
      rcases hmix with ⟨-, hu, hpos⟩ | ⟨hu, -, hpos⟩
      · exact absurd (hb' ▸ hpos) (not_lt.mpr hu)
      · exact absurd (hb ▸ hpos) (not_lt.mpr hu)
    have hslot : ∀ typed, ¬ typedAllocation (createRunner fleet defaults pool h a) typed = true := by
      intro typed
      rw [typedAllocation_of_host hsource]
      exact Bool.false_ne_true
    rcases hmix with ⟨ht, -, -⟩ | ⟨-, ht, -⟩
    · -- the host gave the memory, so the row calls the typed CPU a slot too
      have hfig : 0 < (createRunnerSize fleet defaults pool h a).1.cpus := by
        rcases hc with hc | hc
        · exact hc ▸ ht
        · exact hc.2
      exact .inl (given_ne hfig (hslot _) fun _ hu => of_decide_eq_false hu ht)
    have hfig : 0 < (createRunnerSize fleet defaults pool h a).1.memoryMB := by
      rcases hm with hm | hm
      · exact hm ▸ ht
      · exact hm.2
    exact .inr (given_ne hfig (hslot _) fun _ hu => of_decide_eq_false hu ht)
  | some size =>
    obtain ⟨-, -, hsource⟩ := createRunnerSize_sized hs
    rw [typedAllocation_of_sized hsource, typedAllocation_of_sized hsource]
    rcases hmix with ⟨ht, hu, hpos⟩ | ⟨hu, ht, hpos⟩
    · -- the whole memory went to both containers, and the row counts it once
      have hwire := finishCreateRunner_not_host fleet defaults h hs hd
        (fun hb => absurd hb.1 (not_le.mpr ht))
      exact .inr (given_ne hpos (by simpa using hu) fun hb _ => hwire hb)
    have hwire := finishCreateRunner_not_host fleet defaults h hs hd
      (fun hb => absurd hb.2 (not_le.mpr ht))
    exact .inl (given_ne hpos (by simpa using hu) fun hb _ => hwire hb)

def givesCPUs (p : Pool) (h : Host) : Prop :=
  h.allocatable.cpusKnown = true ∧ (hostLimits h p.backend).cpu = true ∧
    0 < max (slotSize (sizedOn p h) h).cpus (minimumSlot (sizedOn p h)).cpus

def givesMemory (p : Pool) (h : Host) : Prop :=
  h.allocatable.memoryKnown = true ∧ (hostLimits h p.backend).memory = true ∧
    0 < defaultMemoryMB (sizedOn p h) h

def endsLimited {α : Type} [LT α] [Zero α] (size : Option α) (given : Prop) : Prop :=
  match size with
  | some figure => 0 < figure
  | none => given

variable (fleet defaults pool h a) in
def mixedCreate : Prop :=
  let decides := defaults = true ∧ pool.backend ≠ .process
  let p := sizingPool pool fleet
  (0 < pool.resources.cpus ∧ pool.resources.memoryMB ≤ 0 ∧
      endsLimited (a.size.map Resources.memoryMB) (decides ∧ givesMemory p h)) ∨
    (pool.resources.cpus ≤ 0 ∧ 0 < pool.resources.memoryMB ∧
      endsLimited (a.size.map Resources.cpus) (decides ∧ givesCPUs p h))

instance (p : Pool) (h : Host) : Decidable (givesCPUs p h) := inferInstanceAs (Decidable (_ ∧ _))

instance (p : Pool) (h : Host) : Decidable (givesMemory p h) :=
  inferInstanceAs (Decidable (_ ∧ _))

instance {α : Type} [LinearOrder α] [Zero α] (size : Option α) (given : Prop)
    [Decidable given] : Decidable (endsLimited size given) :=
  match size with
  | some figure => inferInstanceAs (Decidable (0 < figure))
  | none => inferInstanceAs (Decidable given)

instance : Decidable (mixedCreate fleet defaults pool h a) := inferInstanceAs (Decidable (_ ∨ _))

theorem given_pos_iff [LinearOrder α] [Zero α] {own share figure : α}
    {known can : Bool} (hu : own ≤ 0) (hpos : 0 < share → 0 < figure) :
    0 < (if (decide (own ≤ 0) && known && can && decide (share > 0)) = true then figure
        else own) ↔
      known = true ∧ can = true ∧ 0 < share := by
  split
  · rename_i hgive
    simp only [Bool.and_eq_true, decide_eq_true_eq] at hgive
    obtain ⟨⟨⟨-, hknown⟩, hcan⟩, hshare⟩ := hgive
    exact iff_of_true (hpos hshare) ⟨hknown, hcan, hshare⟩
  rename_i hgive
  refine iff_of_false (not_lt.mpr hu) ?_
  rintro ⟨hknown, hcan, hshare⟩
  exact hgive (by simp [hu, hknown, hcan, hshare])

theorem allocation_limited (p : Pool) : (p.resources.cpus ≤ 0 →
      (0 < (allocation p h defaults).1.cpus ↔
        (defaults = true ∧ p.backend ≠ .process) ∧ givesCPUs p h)) ∧
    (p.resources.memoryMB ≤ 0 → (0 < (allocation p h defaults).1.memoryMB ↔
        (defaults = true ∧ p.backend ≠ .process) ∧ givesMemory p h)) := by
  by_cases hoff : (!defaults) = true ∨ p.backend = .process
  · have hno : ¬(defaults = true ∧ p.backend ≠ .process) := by
      rintro ⟨hon, hb⟩
      rcases hoff with hd | hp
      · rw [hon] at hd
        cases hd
      · exact hb hp
    have heq : (allocation p h defaults).1 = p.resources := by
      unfold allocation
      rw [if_pos hoff]
    rw [heq]
    exact ⟨fun hu => iff_of_false (not_lt.mpr hu) (fun hb => hno hb.1),
      fun hu => iff_of_false (not_lt.mpr hu) (fun hb => hno hb.1)⟩
  · have hon : defaults = true ∧ p.backend ≠ .process := by
      rw [not_or, Bool.not_eq_true, Bool.not_eq_false'] at hoff
      exact hoff
    have hbackend : (sizedOn p h).backend = p.backend := rfl
    unfold allocation
    dsimp only
    rw [if_neg hoff, hbackend, and_iff_right hon, and_iff_right hon]
    constructor
    · intro hu
      exact given_pos_iff hu defaultCPUs_pos
    · intro hu
      exact given_pos_iff hu fun hpos => hpos

theorem mixedLimited_iff : mixedLimited pool (createRunner fleet defaults pool h a) ↔
    mixedCreate fleet defaults pool h a := by
  obtain ⟨hcpu, hmem⟩ := allocation_limited (sizingPool pool fleet)
  -- the row's figures are the action's size, or what the host and the pool come to
  have hfields : (pool.resources.memoryMB ≤ 0 →
        (0 < (createRunnerSize fleet defaults pool h a).1.memoryMB ↔
          endsLimited (a.size.map Resources.memoryMB) ((defaults = true ∧
            pool.backend ≠ .process) ∧ givesMemory (sizingPool pool fleet) h))) ∧
      (pool.resources.cpus ≤ 0 → (0 < (createRunnerSize fleet defaults pool h a).1.cpus ↔
          endsLimited (a.size.map Resources.cpus) ((defaults = true ∧
            pool.backend ≠ .process) ∧ givesCPUs (sizingPool pool fleet) h))) := by
    cases hs : a.size with
    | none =>
      unfold createRunnerSize
      rw [hs]
      exact ⟨hmem, hcpu⟩
    | some size =>
      obtain ⟨hc, hm, -⟩ := createRunnerSize_sized hs
      rw [hc, hm]
      exact ⟨fun _ => Iff.rfl, fun _ => Iff.rfl⟩
  constructor
  · rintro (⟨ht, hu, hl⟩ | ⟨hu, ht, hl⟩)
    · exact .inl ⟨ht, hu, (hfields.1 hu).mp hl⟩
    · exact .inr ⟨hu, ht, (hfields.2 hu).mp hl⟩
  rintro (⟨ht, hu, hl⟩ | ⟨hu, ht, hl⟩)
  · exact .inl ⟨ht, hu, (hfields.1 hu).mpr hl⟩
  · exact .inr ⟨hu, ht, (hfields.2 hu).mpr hl⟩

end

/-- Exactly when the pool does not type one field while the other ends with a limit. -/
theorem rowsAgree_iff (fleet : Runners) (defaults : Bool) (pool : Pool) (h : Host) (a : Action)
    (hd : pool.dockerMode = .dind) (hn : figuresNonneg pool a) :
    rowsAgree fleet defaults pool h a ↔ ¬ mixedCreate fleet defaults pool h a := by
  rw [← mixedLimited_iff]
  constructor
  · rintro ⟨-, hgranted⟩ hmix
    exact granted_ne_of_mixed hd hmix hgranted
  intro hno
  have hgranted := granted_eq hd hn hno
  refine ⟨?_, hgranted⟩
  intro mb hmb
  rw [launchedMemoryMB_pair hd] at hmb
  split at hmb
  · cases hmb
  · cases hmb
    exact congrArg Prod.snd hgranted

def automaticPool : Pool := { mixedPool with resources := {} }

/-- A pair that splits one slot of the host, and a row that says so. -/
theorem rowsAgree_automaticPool : rowsAgree {} true automaticPool pairHost
      { kind := .create, poolID := "p1", poolName := "linux", hostID := "h1" } :=
  (rowsAgree_iff {} true automaticPool pairHost _ rfl (by decide +kernel)).mpr (by decide +kernel)

/-- Both creates of the mixed pool leave a row that says the wrong size. -/
theorem mixedFleet_not_rowsAgree : mixedFleet.decide.actions.length = 2 ∧
      ∀ a ∈ mixedFleet.decide.actions, a.kind = .create ∧ figuresNonneg mixedPool a ∧
        ¬ rowsAgree {} true mixedPool pairHost a := by
  decide +kernel

end Zoomies.Controller
