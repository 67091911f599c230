import Zoomies.SchedulerRoom
import Zoomies.KeyedList

/-! Placing runners of one pool on one empty host until it refuses. -/
namespace Zoomies.Scheduler
open Zoomies.Go Zoomies.Store

structure OnlyHost (h : Host) (time : Time) (slots : Int) (rest : Reservation) (hs : HostSet) :
    Prop where
  hosts : hs.hosts = [h]
  now : hs.now = time
  need : hs.need = none
  alloc : hs.alloc h.id = h.allocatable
  free : hs.free h.id = slots
  left : hs.left h.id = rest
  promised : hs.promisedMemory h.id = rest.memoryMB

namespace OnlyHost
variable {h : Host} {now : Time} {free : Int} {left : Reservation} {hs : HostSet}
  (ho : OnlyHost h now free left hs)
include ho

theorem leftFor (p : Pool) : hs.leftFor h p = left := by
  unfold HostSet.leftFor HostSet.memoryLeft
  rw [ho.promised, ho.left]
  split <;> rfl

theorem hasRoom (p : Pool) : hs.hasRoom h p = fits left (reserve p h) h.allocatable := by
  rw [HostSet.hasRoom, ho.leftFor, ho.alloc]

theorem meetsNeed (p : Pool) : hs.meetsNeed h p = true := by
  rw [HostSet.meetsNeed, ho.need]

theorem admits_iff (p : Pool)
    (hfresh : h.usage.fresh now = false) :
    hs.admits h p = true ↔ 0 < free ∧ hostCanRun h p now = true := by
  have hcalm : hostUnderCPUPressure h hs.now = false := by
    rw [hostUnderCPUPressure, ho.now, hfresh, Bool.false_and]
  rw [HostSet.admits_iff, ho.free, ho.now]
  rw [ho.now] at hcalm
  rw [hcalm]
  simp

theorem charge (p : Pool) (res : Reservation) :
    OnlyHost h now (free - 1) (left - res) (hs.charge p h.id res) where
  hosts := ho.hosts
  now := ho.now
  need := ho.need
  alloc := ho.alloc
  free := by
    change Function.update hs.free h.id (hs.free h.id - 1) h.id = free - 1
    rw [Function.update_self, ho.free]
  left := by
    change Function.update hs.left h.id (hs.left h.id - res) h.id = left - res
    rw [Function.update_self, ho.left]
  promised := by
    change Function.update hs.promisedMemory h.id (hs.promisedMemory h.id - res.memoryMB) h.id = _
    rw [Function.update_self, ho.promised, Reservation.sub_memoryMB]

theorem choose (p : Pool) : hs.choose p (fun _ => false) =
      if hs.eligible h p then some (h, reserve p h, none)
      else if p.resources.reducible then
        (hs.reducedOption p h).map fun o => (o.host, o.charge, some o.grant)
      else none := by
  have hpick : hs.pick p (fun _ => false) = if hs.eligible h p then some h else none := by
    cases he : hs.eligible h p <;> simp [HostSet.pick, ho.hosts, he, bestChoice, keepBetter]
  have hreduced : hs.pickReduced p (fun _ => false) =
      if p.resources.reducible then hs.reducedOption p h else none := by
    cases hr : p.resources.reducible <;> cases ht : hs.reducedOption p h <;>
      simp [HostSet.pickReduced, ho.hosts, hr, ht, bestChoice, keepBetter]
  rw [HostSet.choose, hpick, hreduced]
  cases hs.eligible h p with
  | true => rfl
  | false =>
    cases p.resources.reducible with
    | true => rfl
    | false => rfl

theorem placeOne_of_choose {p : Pool} {res : Reservation}
    (size : Option Resources) (hc : hs.choose p (fun _ => false) = some (h, res, size)) :
    hs.placeOne p (fun _ => false) = some (⟨h.id, size, false⟩, hs.charge p h.id res) := by
  rw [HostSet.placeOne, hc, Option.map_some]
  simp only [HostSet.sized, ho.need]

theorem placeOne_standard {p : Pool}
    (hfresh : h.usage.fresh now = false) (hf : 0 < free) (hcan : hostCanRun h p now = true)
    (hfit : fits left (reserve p h) h.allocatable = true) : hs.placeOne p (fun _ => false) =
      some (⟨h.id, none, false⟩, hs.charge p h.id (reserve p h)) := by
  apply ho.placeOne_of_choose
  have he : hs.eligible h p = true := by
    rw [HostSet.eligible_iff, ho.admits_iff p hfresh, ho.hasRoom]
    exact ⟨⟨hf, hcan⟩, ho.meetsNeed p, hfit⟩
  rw [ho.choose, if_pos he]

theorem placeOne_reduced {p : Pool}
    (hfresh : h.usage.fresh now = false) (hf : 0 < free) (hcan : hostCanRun h p now = true)
    (hfit : fits left (reserve p h) h.allocatable = false)
    (hp : p.resources.reducible = true) (hr : (sizedOn p h).resources.reducible = true)
    (hmin : fits left (minimumReserve p h) h.allocatable = true) :
    ∃ size, hs.placeOne p (fun _ => false) =
      some (⟨h.id, size, false⟩, hs.charge p h.id (reducedCharge p h left h.allocatable)) := by
  refine ⟨_, ho.placeOne_of_choose (some (grantFor p (reducedCharge p h left h.allocatable))) ?_⟩
  have he : hs.eligible h p = false := by
    rw [Bool.eq_false_iff]
    intro he
    have hroom := ((HostSet.eligible_iff).mp he).2.2
    rw [ho.hasRoom, hfit] at hroom
    cases hroom
  have hadm : hs.admits h p = true := (ho.admits_iff p hfresh).mpr ⟨hf, hcan⟩
  have hoption : hs.reducedOption p h = some ⟨h, reducedCharge p h left h.allocatable,
      grantFor p (reducedCharge p h left h.allocatable),
      HostSet.worthOf (reducedCharge p h left h.allocatable) (reserve p h)⟩ := by
    simp [HostSet.reducedOption, hadm, ho.meetsNeed p, ho.leftFor, ho.alloc, reducedSize_eq, hr, hmin]
  rw [ho.choose, he, hp, hoption]
  rfl

theorem placeOne_refused {p : Pool}
    (hfresh : h.usage.fresh now = false)
    (hno : free ≤ 0 ∨ hostCanRun h p now = false ∨ fits left (reserve p h) h.allocatable = false ∧
        ((sizedOn p h).resources.reducible = false ∨
          fits left (minimumReserve p h) h.allocatable = false)) :
    hs.placeOne p (fun _ => false) = none := by
  rw [HostSet.placeOne_eq_none_iff]
  intro g hg
  rw [ho.hosts, List.mem_singleton] at hg
  subst hg
  rintro ⟨hadm, -, htake⟩
  rw [ho.admits_iff p hfresh] at hadm
  rw [ho.hasRoom, ho.leftFor, ho.alloc] at htake
  rcases hno with hfree | hcan | ⟨hstd, hred⟩
  · omega
  · rw [hcan] at hadm
    cases hadm.2
  rcases htake with hroom | ⟨-, hr, hmin⟩
  · rw [hstd] at hroom
    cases hroom
  rcases hred with hred | hred
  · rw [hr] at hred
    cases hred
  · rw [hmin] at hred
    cases hred

end OnlyHost

section
variable (h : Host) (p : Pool)

def reducedFollows (k : Int) : Prop :=
  (sizedOn p h).resources.reducible = true ∧
    fits (restOf h.allocatable (reserve p h) k) (minimumReserve p h) h.allocatable = true

instance (k : Int) : Decidable (reducedFollows h p k) := inferInstanceAs (Decidable (_ ∧ _))

def roomFrom (count : Option (Int × RoomLimit)) : Int :=
  match count with
  | none => h.effectiveCapacity
  | some (n, _) => min (if reducedFollows h p n then n + 1 else n) h.effectiveCapacity

theorem standardCount_nonneg : atLeast (standardCount h.allocatable (reserve p h)) 0 := by
  have hc := reserve_cpus_nonneg p h
  rw [atLeast_standardCount]
  refine ⟨?_, ?_, ?_⟩
  · intro _ hpos
    apply truncate_nonneg
    have ha := allocatable_cpus_nonneg h
    have he := cpuEpsilon_pos
    exact div_nonneg (by linarith) hc
  · intro _ hpos
    exact Int.tdiv_nonneg (allocatable_memoryMB_nonneg h) hpos.le
  · intro _ hpos
    exact Int.tdiv_nonneg (allocatable_diskMB_nonneg h) hpos.le

theorem restOf_zero (alloc : HostAllocation) (want : Reservation) :
    restOf alloc want 0 = wholeOf alloc := by
  ext <;> simp [restOf, wholeOf]

theorem restOf_succ (alloc : HostAllocation) (want : Reservation) (k : Int) :
    restOf alloc want k - want = restOf alloc want (k + 1) := by
  ext
  · simp only [restOf, Reservation.sub_cpus]
    push_cast
    ring
  · simp only [restOf, Reservation.sub_memoryMB]
    ring
  · simp only [restOf, Reservation.sub_diskMB]
    ring

variable {k : Int}

theorem count_eq_of_full (hk : atLeast (standardCount h.allocatable (reserve p h)) k)
    (hfull : ¬ atLeast (standardCount h.allocatable (reserve p h)) (k + 1)) :
    ∃ l, standardCount h.allocatable (reserve p h) = some (k, l) := by
  cases hc : standardCount h.allocatable (reserve p h) with
  | none =>
    rw [hc] at hfull
    exact absurd atLeast_none hfull
  | some c =>
    obtain ⟨n, l⟩ := c
    rw [hc, atLeast_some] at hk hfull
    have hn : n = k := by omega
    exact ⟨l, by rw [hn]⟩

theorem not_reducedFollows (hsame : minimumReserve p h = reserve p h)
    (hstd : fits (restOf h.allocatable (reserve p h) k) (reserve p h) h.allocatable = false) :
    ¬ reducedFollows h p k := by
  rintro ⟨-, hmin⟩
  rw [hsame, hstd] at hmin
  cases hmin

theorem hostRoomFor_room (hex : excludedBySize h p = none)
    (hshare : shareTooSmall h (sizedOn p h) = none)
    (hdisk : h.allocatable.diskKnown = true → 0 < h.allocatable.diskMB) :
    (hostRoomFor h p).room = roomFrom h p (standardCount h.allocatable (reserve p h)) := by
  have hgate : ¬(h.allocatable.diskKnown = true ∧ h.allocatable.diskMB ≤ 0) := by
    rintro ⟨hknown, hle⟩
    have hpos := hdisk hknown
    omega
  unfold hostRoomFor
  simp only [hex, Option.isSome_none, Bool.false_eq_true, ↓reduceIte, hshare, hgate,
    reserve_sizedOn, minimumReserve_sizedOn, reducedSize_eq, sizedOn_sizedOn]
  cases hc : standardCount h.allocatable (reserve p h) with
  | none => rfl
  | some c =>
    obtain ⟨n, l⟩ := c
    have hn : 0 ≤ n := by
      have hall := standardCount_nonneg h p
      rwa [hc, atLeast_some] at hall
    -- the standard no longer fits after the counted ones, so a minimum equal to it adds nothing
    have hstd : fits (restOf h.allocatable (reserve p h) n) (reserve p h) h.allocatable = false := by
      rw [Bool.eq_false_iff, ne_eq, fits_restOf_iff hn hdisk, hc, atLeast_some]
      omega
    by_cases hr : reducedFollows h p n
    · have hne : minimumReserve p h ≠ reserve p h := fun he => not_reducedFollows h p he hstd hr
      have hcond : (sizedOn p h).resources.reducible = true ∧
        fits (restOf h.allocatable (reserve p h) n) (minimumReserve p h) h.allocatable = true := hr
      simp only [roomFrom, hr, hcond, hne, ne_eq, not_false_eq_true, and_self, ↓reduceIte,
        Option.isSome_some]
      rw [max_eq_left (by omega)]
    have hcond : ¬((sizedOn p h).resources.reducible = true ∧
      fits (restOf h.allocatable (reserve p h) n) (minimumReserve p h) h.allocatable = true) := hr
    simp only [roomFrom, hr, hcond, ↓reduceIte, Option.isSome_none, Bool.false_eq_true, and_false]
    rw [max_eq_left hn]

theorem hostFits_iff : hostFits h p = true ↔
    excludedBySize h p = none ∧ shareTooSmall h (sizedOn p h) = none ∧
      fits (wholeOf h.allocatable) (minimumReserve p h) h.allocatable = true := by
  simp [hostFits]

theorem effectiveCapacity_nonneg (hcap : 0 ≤ h.capacity) : 0 ≤ h.effectiveCapacity := by
  have hslots : 0 ≤ h.slots := by
    unfold Host.slots
    dsimp only
    split
    · exact hcap
    split
    · exact le_max_right _ _
    · exact hcap
  unfold Host.effectiveCapacity
  split
  · exact hslots
  · exact le_max_of_le_left (by norm_num)

theorem hostRoomFor_room_of_not_fits (hcap : 0 ≤ h.capacity) (hf : hostFits h p = false) :
    (hostRoomFor h p).room = 0 := by
  have hslots := effectiveCapacity_nonneg h hcap
  have hfalse : ¬ hostFits h p = true := by
    rw [hf]
    exact Bool.false_ne_true
  rw [hostFits_iff] at hfalse
  cases hex : excludedBySize h p with
  | some e => simp [hostRoomFor, hex]
  | none =>
    cases hshare : shareTooSmall h (sizedOn p h) with
    | some f => simp [hostRoomFor, hex, hshare]
    | none =>
      have hmin : ¬ fits (wholeOf h.allocatable) (minimumReserve p h) h.allocatable = true := by
        intro hfit
        exact hfalse ⟨hex, hshare, hfit⟩
      by_cases hgate : h.allocatable.diskKnown = true ∧ h.allocatable.diskMB ≤ 0
      · simp [hostRoomFor, hex, hshare, hgate]
      have hdisk : h.allocatable.diskKnown = true → 0 < h.allocatable.diskMB := by
        intro hk
        by_contra hle
        exact hgate ⟨hk, not_lt.mp hle⟩
      have hfull : ¬ atLeast (standardCount h.allocatable (reserve p h)) (0 + 1) := by
        rw [← fits_restOf_iff le_rfl hdisk, restOf_zero]
        intro hfit
        exact hmin (fits_minimumReserve hfit)
      obtain ⟨l, hcount⟩ := count_eq_of_full h p (standardCount_nonneg h p) hfull
      have hnot : ¬ reducedFollows h p 0 := by
        rintro ⟨-, hfit⟩
        rw [restOf_zero] at hfit
        exact hmin hfit
      rw [hostRoomFor_room h p hex hshare hdisk, hcount]
      simp only [roomFrom, hnot, ↓reduceIte]
      exact min_eq_left hslots

theorem roomFrom_le (count : Option (Int × RoomLimit)) : roomFrom h p count ≤ h.effectiveCapacity := by
  unfold roomFrom
  split
  · exact le_rfl
  · exact min_le_right _ _

theorem le_roomFrom {count : Option (Int × RoomLimit)} (hk : k ≤ h.effectiveCapacity)
    (hc : atLeast count k) : k ≤ roomFrom h p count := by
  unfold roomFrom
  split
  · exact hk
  · rw [atLeast_some] at hc
    split <;> omega

end

theorem length_placeAvoiding_of_none {hs : HostSet} {p : Pool} {n : Nat} {avoid : String → Bool}
    (hp : hs.placeOne p avoid = none) : (hs.placeAvoiding p n avoid).1.length = 0 := by
  cases n with
  | zero => rfl
  | succ n => rw [HostSet.placeAvoiding, hp, List.length_nil]

theorem length_placeAvoiding_succ {hs hs' : HostSet} {p : Pool} {n : Nat} {avoid : String → Bool}
    {pl : Placement} (hp : hs.placeOne p avoid = some (pl, hs')) :
    (hs.placeAvoiding p (n + 1) avoid).1.length = (hs'.placeAvoiding p n avoid).1.length + 1 := by
  rw [HostSet.placeAvoiding, hp]
  rfl

section
variable {h : Host} {p : Pool} {now : Time} (hfresh : h.usage.fresh now = false)
  (hcan : hostCanRun h p now = true) (hp : minimumsAccepted (poolMinimum p))
  (hh : minimumsAccepted h.runnerProfile.minimum)
  (hred : (sizedOn p h).resources.reducible = true → p.resources.reducible = true)
  (hdisk : h.allocatable.diskKnown = true → 0 < h.allocatable.diskMB)

include hfresh hp hh in
theorem placed_after_reduced {n : Nat} {left : Reservation} {free : Int} {hs : HostSet}
    (ho : OnlyHost h now free (left - reducedCharge p h left h.allocatable) hs)
    (hmin : fits left (minimumReserve p h) h.allocatable = true)
    (hstd : fits left (reserve p h) h.allocatable = false) :
    (hs.placeAvoiding p n fun _ => false).1.length = 0 := by
  have hno := not_fits_after_reduced hp hh hmin hstd
  have hnostd : fits (left - reducedCharge p h left h.allocatable) (reserve p h) h.allocatable =
      false := by
    rw [Bool.eq_false_iff]
    intro hfit
    rw [fits_minimumReserve hfit] at hno
    cases hno
  apply length_placeAvoiding_of_none
  exact ho.placeOne_refused hfresh (.inr (.inr ⟨hnostd, .inr hno⟩))

include hfresh hcan hp hh hred hdisk in
theorem placed_after (n : Nat) (k : Int) (hs : HostSet) (hk : 0 ≤ k)
    (hslots : k ≤ h.effectiveCapacity)
    (hcount : atLeast (standardCount h.allocatable (reserve p h)) k)
    (ho : OnlyHost h now (h.effectiveCapacity - k) (restOf h.allocatable (reserve p h) k) hs) :
    ((hs.placeAvoiding p n fun _ => false).1.length : Int) =
      min (n : Int) (roomFrom h p (standardCount h.allocatable (reserve p h)) - k) := by
  -- on how many are still to be placed; `k` are there, all at the standard size
  have hroom := le_roomFrom h p hslots hcount
  have htop := roomFrom_le h p (standardCount h.allocatable (reserve p h))
  induction n generalizing k hs with
  | zero =>
    change (0 : Int) = min 0 _
    omega
  | succ n ih =>
    by_cases hfree : h.effectiveCapacity - k ≤ 0
    · -- every slot is taken
      rw [length_placeAvoiding_of_none (ho.placeOne_refused hfresh (.inl hfree))]
      push_cast
      omega
    rw [not_le] at hfree
    by_cases hmore : atLeast (standardCount h.allocatable (reserve p h)) (k + 1)
    · -- one more at the standard size
      have hfit := (fits_restOf_iff hk hdisk).mpr hmore
      rw [length_placeAvoiding_succ (ho.placeOne_standard hfresh hfree hcan hfit)]
      have hnext := ho.charge p (reserve p h)
      rw [restOf_succ, show h.effectiveCapacity - k - 1 = h.effectiveCapacity - (k + 1) by ring]
        at hnext
      have hle := le_roomFrom h p (by omega) hmore
      have hrest := ih (k + 1) _ (by omega) (by omega) hmore hnext hle
      push_cast
      omega
    · have hfit : fits (restOf h.allocatable (reserve p h) k) (reserve p h) h.allocatable = false := by
        rw [Bool.eq_false_iff]
        intro hfit
        exact hmore ((fits_restOf_iff hk hdisk).mp hfit)
      obtain ⟨l, hc⟩ := count_eq_of_full h p hcount hmore
      by_cases hfollows : reducedFollows h p k
      · -- one more below its standard, and then nothing
        obtain ⟨size, hplace⟩ := ho.placeOne_reduced hfresh hfree hcan hfit (hred hfollows.1)
          hfollows.1 hfollows.2
        rw [length_placeAvoiding_succ hplace,
          placed_after_reduced hfresh hp hh (ho.charge p _) hfollows.2 hfit, hc]
        simp only [roomFrom, hfollows, ↓reduceIte]
        push_cast
        omega
      · have hno : (sizedOn p h).resources.reducible = false ∨
            fits (restOf h.allocatable (reserve p h) k) (minimumReserve p h) h.allocatable = false := by
          rw [reducedFollows, not_and_or, Bool.not_eq_true, Bool.not_eq_true] at hfollows
          exact hfollows
        rw [length_placeAvoiding_of_none (ho.placeOne_refused hfresh (.inr (.inr ⟨hfit, hno⟩))), hc]
        simp only [roomFrom, hfollows, ↓reduceIte]
        push_cast
        omega

end

def Vacant (h : Host) (runners : RunnerTable) : Prop :=
  ∀ entry ∈ runners, ∀ r ∈ entry.2, liveOn h r = false

instance (h : Host) (runners : RunnerTable) : Decidable (Vacant h runners) :=
  inferInstanceAs (Decidable (∀ entry ∈ runners, ∀ r ∈ entry.2, liveOn h r = false))

variable {runners : RunnerTable}

theorem chargedOn_of_vacant {h : Host} {pools : List Pool} (hv : Vacant h runners) :
    chargedOn h pools runners = [] := by
  rw [chargedOn, List.flatMap_eq_nil_iff]
  intro p _
  rw [List.map_eq_nil_iff, List.filter_eq_nil_iff]
  intro r hr
  unfold runnersOf at hr
  cases hl : runners.lookup p.id with
  | none =>
    rw [hl] at hr
    cases hr
  | some l =>
    rw [hl] at hr
    rw [Bool.not_eq_true]
    exact hv (p.id, l) (mem_of_lookup hl) r hr

theorem reserved_of_vacant {h : Host} (pools : List Pool) (hv : Vacant h runners) :
    (totalsByHost pools runners h).reserved = 0 := by
  rw [totalsByHost, chargedOn_of_vacant hv]
  rfl

theorem onlyHost_newHostSet {h : Host} (pools : List Pool) {now : Time} (hv : Vacant h runners)
    (hfresh : h.usage.fresh now = false) (hactive : h.activeRunners = 0)
    (hretired : h.retired = false) (hcap : 0 ≤ h.capacity) :
    OnlyHost h now h.effectiveCapacity (wholeOf h.allocatable)
      (newHostSet [h] pools runners now) := by
  have hentry : ∀ {α : Type} (value : Host → α) (absent : α),
      byHost [h] value absent h.id = value h := by
    simp [byHost]
  have hres := reserved_of_vacant pools hv
  have hwhole : unreserved h (totalsByHost pools runners h) = wholeOf h.allocatable := by
    unfold unreserved
    rw [hres]
    ext
    · exact sub_zero _
    · exact sub_zero _
    split
    · exact sub_zero _
    · rfl
  refine ⟨rfl, rfl, rfl, ?_, ?_, ?_, ?_⟩
  · exact hentry Host.allocatable {}
  · have hfree : h.free = h.effectiveCapacity := by
      rw [Host.free, hretired, hactive, sub_zero]
      exact max_eq_left (effectiveCapacity_nonneg h hcap)
    exact (hentry Host.free 0).trans hfree
  · have hleft : initialLeft h (totalsByHost pools runners h) now = wholeOf h.allocatable := by
      simp [initialLeft, hfresh, hwhole]
    exact (hentry (fun h => initialLeft h (totalsByHost pools runners h) now) {}).trans hleft
  have hmem : (unreserved h (totalsByHost pools runners h)).memoryMB =
      (wholeOf h.allocatable).memoryMB := by
    rw [hwhole]
  exact (hentry (fun h => (unreserved h (totalsByHost pools runners h)).memoryMB) 0).trans hmem

theorem hostAvailable_not_retired {h : Host} {now : Time} (ha : hostAvailable h now = true) :
    h.retired = false := by
  simp only [hostAvailable, hostPresent, Host.healthy, Bool.and_eq_true, Bool.not_eq_true'] at ha
  exact ha.1.1.1.1

theorem disk_pos_of_fits {left want : Reservation} {known : HostAllocation}
    (hf : fits left want known = true) (hk : known.diskKnown = true) : 0 < known.diskMB :=
  ((fits_iff.mp hf).1 hk).1

/-- Placing runners on an empty host one at a time comes to the room worked out for it: on a host
configured for the pool, and where a minimum the host's profile adds is not the only one the pool
has. -/
theorem placed_eq_hostRoomFor (h : Host) (p : Pool) (pools : List Pool) (runners : RunnerTable)
    (now : Time) (n : Nat) (hv : Vacant h runners) (hactive : h.activeRunners = 0)
    (havail : hostAvailable h now = true) (hfresh : h.usage.fresh now = false)
    (hoffers : hostOffers h p = true) (hplatform : hostIsPlatform h p = true)
    (hselects : hostSelects h p = true) (hcap : 0 ≤ h.capacity)
    (hp : minimumsAccepted (poolMinimum p)) (hh : minimumsAccepted h.runnerProfile.minimum)
    (hred : (sizedOn p h).resources.reducible = true → p.resources.reducible = true) :
    (((newHostSet [h] pools runners now).placeAvoiding p n fun _ => false).1.length : Int) =
      min (n : Int) (hostRoomFor h p).room := by
  have ho := onlyHost_newHostSet pools hv hfresh hactive (hostAvailable_not_retired havail) hcap
  cases hfits : hostFits h p with
  | false =>
    have hcan : hostCanRun h p now = false := by
      simp [hostCanRun, hostCouldRun, hfits]
    rw [length_placeAvoiding_of_none (ho.placeOne_refused hfresh (.inr (.inl hcan))),
      hostRoomFor_room_of_not_fits h p hcap hfits]
    omega
  | true =>
    have hcan : hostCanRun h p now = true := by
      simp [hostCanRun, hostCouldRun, hfits, havail, hoffers, hplatform, hselects]
    obtain ⟨hex, hshare, hmin⟩ := (hostFits_iff h p).mp hfits
    have hdisk := disk_pos_of_fits hmin
    have hstart : OnlyHost h now (h.effectiveCapacity - 0)
        (restOf h.allocatable (reserve p h) 0) (newHostSet [h] pools runners now) := by
      rw [restOf_zero, sub_zero]
      exact ho
    have hplaced := placed_after hfresh hcan hp hh hred hdisk n 0 _ le_rfl
      (effectiveCapacity_nonneg h hcap) (standardCount_nonneg h p) hstart
    rw [hplaced, hostRoomFor_room h p hex hshare hdisk, sub_zero]

def idleHost : Host where
  id := "h1"
  capacity := 4
  backends := ["docker"]
  cpus := 8
  memoryMB := 16384
  lastHeartbeat := hour

def elasticPool : Pool where
  id := "p1"
  enabled := true
  maxRunners := 8
  resources := { cpus := 3, memoryMB := 2048, minCPUs := 1 }

/-- Two runners at three CPUs, and a third in the CPU and a half that is left. -/
theorem placed_eq_hostRoomFor_idleHost :
    (((newHostSet [idleHost] [] [] hour).placeAvoiding elasticPool 5 fun _ => false).1.length : Int) =
        min 5 (hostRoomFor idleHost elasticPool).room ∧
      hostRoomFor idleHost elasticPool = ⟨4, 3, 3, .cpu⟩ :=
  ⟨placed_eq_hostRoomFor idleHost elasticPool [] [] hour 5 (by decide) rfl (by decide +kernel)
      (by decide) (by decide) (by decide +kernel) (by decide) (by decide) (by decide +kernel)
      (by decide +kernel) (by decide +kernel),
    by decide +kernel⟩

def processHost : Host := { idleHost with backends := ["process"] }

def profiledHost : Host := { idleHost with cpus := 4, runnerProfile := { minimum := { cpus := 1 } } }

def fixedPool : Pool := { elasticPool with resources := { cpus := 2, memoryMB := 2048 } }

def negativeHost : Host := { idleHost with capacity := -1 }

def roomNotPlaced (h : Host) (p : Pool) : Prop :=
  h.activeRunners = 0 ∧ hostAvailable h hour = true ∧ h.usage.fresh hour = false ∧
    minimumsAccepted (poolMinimum p) ∧ minimumsAccepted h.runnerProfile.minimum ∧
    (((newHostSet [h] [] [] hour).placeAvoiding p 5 fun _ => false).1.length : Int) ≠
      (hostRoomFor h p).room

instance (h : Host) (p : Pool) : Decidable (roomNotPlaced h p) :=
  inferInstanceAs (Decidable (_ ∧ _))

/-- Not where the host does not offer the pool's backend, where only the host's profile makes the
pool reducible, nor where its capacity is below zero. -/
theorem hostRoomFor_not_placed :
    roomNotPlaced processHost elasticPool ∧ roomNotPlaced profiledHost fixedPool ∧
      roomNotPlaced negativeHost elasticPool := by
  decide +kernel

end Zoomies.Scheduler
