import Zoomies.ControllerMachinePlan
import Zoomies.KeyedList

/-! What one pass buys, measured against its ceilings, and the ceilings over a run of passes. -/
namespace Zoomies.Controller
open Zoomies.Store List

theorem bite_create {b : Purchase} {c : Ceiling} (hb : 0 ≤ b.create) :
    (bite b c).create = max (min b.create c.room) 0 := by
  unfold bite
  split
  · dsimp only
    omega
  · omega

theorem foldl_bite_create {cs : List Ceiling} (b : Purchase) (hb : 0 ≤ b.create) :
    (cs.foldl bite b).create = cutTo b.create (cs.map Ceiling.room) := by
  induction cs generalizing b with
  | nil => rfl
  | cons c cs ih =>
    have hnext : 0 ≤ (bite b c).create := by
      rw [bite_create hb]
      exact le_max_right _ _
    rw [foldl_cons, ih _ hnext, bite_create hb]
    rfl

theorem providerMachineCeiling_room (p : Provider) (owned : Int) :
    (providerMachineCeiling p owned).room = p.maxMachines - owned := by
  unfold providerMachineCeiling
  split
  · rfl
  · split <;> rfl

theorem fleetMachineCeiling_room (l : MachineLimits) (room : Int) :
    (fleetMachineCeiling l room).room = room := by
  unfold fleetMachineCeiling
  dsimp only
  split
  · rfl
  · split <;> rfl

theorem providerCreateCeiling_room (p : Provider) (building : Int) :
    (providerCreateCeiling p building).room = p.maxCreatesInFlight - building := by
  unfold providerCreateCeiling
  split
  · rfl
  · split <;> rfl

theorem fleetCreateCeiling_room (l : MachineLimits) (room : Int) :
    (fleetCreateCeiling l room).room = room := by
  unfold fleetCreateCeiling
  dsimp only
  split
  · rfl
  · split <;> rfl

theorem ceilDiv_nonneg {a b : Int} : 0 ≤ ceilDiv a b := by
  unfold ceilDiv
  split
  · exact le_rfl
  · exact Int.tdiv_nonneg (by omega) (by omega)

theorem le_ceilDiv_mul {a : Int} {b : Int} (hb : 0 < b) : a ≤ ceilDiv a b * b := by
  unfold ceilDiv
  split
  · omega
  have hpos : 0 ≤ a + b - 1 := by omega
  have hdiv := Int.mul_ediv_add_emod (a + b - 1) b
  have hmod := Int.emod_lt_of_pos (a + b - 1) hb
  rw [Int.tdiv_eq_ediv_of_nonneg hpos, Int.mul_comm]
  omega

section
variable (s : MachineSnapshot)

theorem wantOf_nonneg (p : Provider) : 0 ≤ wantOf s p := ceilDiv_nonneg

theorem floorOf_nonneg (p : Provider) : 0 ≤ floorOf s p := by
  unfold floorOf
  split
  · exact le_max_right _ _
  · exact le_rfl

def askOf (p : Provider) : Int := wantOf s p + floorOf s p

theorem askOf_nonneg (p : Provider) : 0 ≤ askOf s p :=
  Int.add_nonneg (wantOf_nonneg s p) (floorOf_nonneg s p)

def roomsOf (counted : Machine → Bool) (p : Provider) (room createRoom : Int) : List Int :=
  [p.maxMachines - machinesOf s counted p.id, room,
    p.maxCreatesInFlight - machinesOf s isPending p.id, createRoom]

theorem purchaseOf_create (w : ProviderWalk) (p : Provider) : (purchaseOf s w p).create =
      cutTo (askOf s p) (roomsOf s Machine.owns p w.fleetRoom w.fleetCreateRoom) := by
  rw [purchaseOf, foldl_bite_create _ (askOf_nonneg s p)]
  simp only [ceilingsOf, map_cons, map_nil, providerMachineCeiling_room,
    fleetMachineCeiling_room, providerCreateCeiling_room, fleetCreateCeiling_room]
  rfl

def purchases (counted : Machine → Bool) : List Provider → Int → Int → List Int
  | [], _, _ => []
  | p :: rest, room, createRoom =>
    let create := cutTo (askOf s p) (roomsOf s counted p room createRoom)
    create :: purchases counted rest (room - create) (createRoom - create)

variable {ps : List Provider}

theorem plans_foldl (w : ProviderWalk) :
    (ps.foldl (providerStep s) w).plans.map ProviderPlan.create = w.plans.map ProviderPlan.create ++
        purchases s Machine.owns ps w.fleetRoom w.fleetCreateRoom := by
  induction ps generalizing w with
  | nil => exact (append_nil _).symm
  | cons p ps ih =>
    rw [foldl_cons, ih, purchases, ← purchaseOf_create]
    simp only [providerStep, map_append, append_assoc]
    rfl

def purchasesCounting (counted : Machine → Bool) : List Int :=
  purchases s counted (sortedProviders s.providers)
    (s.limits.maxMachines - fleetMachines s counted)
    (s.limits.maxCreatesInFlight - fleetMachines s isPending)

theorem decideMachines_create :
    (decideMachines s).providers.map ProviderPlan.create = purchasesCounting s Machine.owns := by
  unfold decideMachines
  split
  · rename_i hempty
    rw [purchasesCounting, isEmpty_iff.mp hempty]
    rfl
  · exact plans_foldl s _

theorem forall₂_plans (w : ProviderWalk)
    (done : List Provider) (hw : List.Forall₂ (fun p plan => plan.providerID = p.id ∧
      plan.have_ = machinesOf s isHad p.id ∧
      plan.wanted = machinesOf s isHad p.id + askOf s p) done w.plans) :
    List.Forall₂ (fun p plan => plan.providerID = p.id ∧ plan.have_ = machinesOf s isHad p.id ∧
      plan.wanted = machinesOf s isHad p.id + askOf s p)
      (done ++ ps) (ps.foldl (providerStep s) w).plans := by
  induction ps generalizing w done with
  | nil =>
    rw [append_nil]
    exact hw
  | cons p ps ih =>
    have hnext := ih (providerStep s w p) (done ++ [p])
      (rel_append hw (List.Forall₂.cons ⟨rfl, rfl, add_assoc _ _ _⟩ List.Forall₂.nil))
    rw [append_assoc] at hnext
    exact hnext

theorem decideMachines_plans : List.Forall₂ (fun p plan => plan.providerID = p.id ∧
      plan.have_ = machinesOf s isHad p.id ∧ plan.wanted = machinesOf s isHad p.id + askOf s p)
      (sortedProviders s.providers) (decideMachines s).providers := by
  unfold decideMachines
  split
  · rename_i hempty
    rw [isEmpty_iff.mp hempty]
    exact List.Forall₂.nil
  · exact forall₂_plans s _ [] List.Forall₂.nil

theorem purchases_within (counted : Machine → Bool) (ps : List Provider) (room createRoom : Int) :
    List.Forall₂ (fun p c => 0 ≤ c ∧ c ≤ askOf s p ∧
        machinesOf s counted p.id + c ≤ max (machinesOf s counted p.id) p.maxMachines ∧
        machinesOf s isPending p.id + c ≤ max (machinesOf s isPending p.id) p.maxCreatesInFlight)
      ps (purchases s counted ps room createRoom) ∧
    0 ≤ (purchases s counted ps room createRoom).sum ∧
    (purchases s counted ps room createRoom).sum ≤ max room 0 ∧
    (purchases s counted ps room createRoom).sum ≤ max createRoom 0 := by
  induction ps generalizing room createRoom with
  | nil => exact ⟨List.Forall₂.nil, le_rfl, le_max_right _ _, le_max_right _ _⟩
  | cons p ps ih =>
    rw [purchases]
    have hask := askOf_nonneg s p
    have hnonneg := cutTo_nonneg (roomsOf s counted p room createRoom) hask
    have hle := cutTo_le (roomsOf s counted p room createRoom) hask
    have hrooms : ∀ r ∈ roomsOf s counted p room createRoom,
        cutTo (askOf s p) (roomsOf s counted p room createRoom) ≤ max r 0 :=
      fun r hr => cutTo_le_room _ _ hask r hr
    simp only [roomsOf, forall_mem_cons] at hrooms
    obtain ⟨hmachines, hroom, hbuilding, hcreate, -⟩ := hrooms
    simp only [roomsOf] at hnonneg hle ⊢
    generalize cutTo (askOf s p) _ = c at hnonneg hle hmachines hroom hbuilding hcreate ⊢
    obtain ⟨hrest, hpos, hsum, hsumCreate⟩ := ih (room - c) (createRoom - c)
    rw [sum_cons]
    refine ⟨List.Forall₂.cons ⟨hnonneg, hle, by omega, by omega⟩ hrest, ?_, ?_, ?_⟩
    · omega
    · omega
    · omega

theorem decideMachines_create_le :
    List.Forall₂ (fun p plan => 0 ≤ plan.create ∧ plan.create ≤ askOf s p)
      (sortedProviders s.providers) (decideMachines s).providers := by
  obtain ⟨hall, -⟩ := purchases_within s Machine.owns (sortedProviders s.providers)
    (s.limits.maxMachines - fleetMachines s Machine.owns)
    (s.limits.maxCreatesInFlight - fleetMachines s isPending)
  have hcreate := decideMachines_create s
  rw [purchasesCounting] at hcreate
  rw [← hcreate, forall₂_map_right_iff] at hall
  exact hall.imp fun _ _ h => ⟨h.1, h.2.1⟩

def allowance (p : Provider) : Int :=
  max (min (askOf s p) (min (p.maxMachines - machinesOf s Machine.owns p.id)
    (p.maxCreatesInFlight - machinesOf s isPending p.id))) 0

def spareOf (p : Provider) : Int := max (p.maxMachines - machinesOf s isHad p.id) 0

def KeepsMaximums : List Provider → Int → Prop
  -- `left` is what the fleet's ceilings leave after the providers before
  | [], _ => True
  | p :: rest, left =>
    (allowance s p ≤ spareOf s p ∨ left ≤ spareOf s p) ∧ KeepsMaximums rest (left - allowance s p)

/-- A purchase is the provider's allowance, as far as the fleet's ceilings leave it. -/
theorem purchase_eq (p : Provider) (room createRoom : Int) :
    cutTo (askOf s p) (roomsOf s Machine.owns p room createRoom) =
      min (allowance s p) (max (min room createRoom) 0) := by
  have hask := askOf_nonneg s p
  refine eq_of_forall_le_iff fun x => ?_
  rw [le_cutTo_iff _ hask]
  simp only [roomsOf, forall_mem_cons, allowance, le_min_iff, le_max_iff]
  by_cases hx : x ≤ 0
  · simp [hx, hx.trans hask]
  · simp only [hx, or_false]
    exact ⟨fun h => ⟨⟨h.1, h.2.1, h.2.2.2.1⟩, h.2.2.1, h.2.2.2.2.1⟩,
      fun h => ⟨h.1.1, h.1.2.1, h.2.1, h.1.2.2, h.2.2, nofun⟩⟩

theorem allowance_nonneg (p : Provider) : 0 ≤ allowance s p := le_max_right _ _

theorem purchases_sum (room createRoom : Int) : (purchases s Machine.owns ps room createRoom).sum =
      min (ps.map (allowance s)).sum (max (min room createRoom) 0) := by
  induction ps generalizing room createRoom with
  | nil => simp [purchases]
  | cons p ps ih =>
    have hp := allowance_nonneg s p
    have hps : 0 ≤ (ps.map (allowance s)).sum :=
      sum_nonneg (by simpa using fun q _ => allowance_nonneg s q)
    rw [purchases, purchase_eq, sum_cons, ih, map_cons, sum_cons]
    omega

theorem keepsMaximums_congr {left left' : Int} (h : max left 0 = max left' 0) :
    KeepsMaximums s ps left ↔ KeepsMaximums s ps left' := by
  induction ps generalizing left left' with
  | nil => exact Iff.rfl
  | cons p ps ih =>
    have hp := allowance_nonneg s p
    have hspare : 0 ≤ spareOf s p := le_max_right _ _
    have hnext := @ih (left - allowance s p) (left' - allowance s p) (by omega)
    rw [KeepsMaximums, KeepsMaximums, hnext]
    refine and_congr_left fun _ => ?_
    omega

/-- Every purchase leaves its provider within its maximum exactly when the allowances do. -/
theorem purchases_keep_iff (room createRoom : Int) :
    List.Forall₂ (fun p c => machinesOf s isHad p.id + c ≤
        max (machinesOf s isHad p.id) p.maxMachines)
      ps (purchases s Machine.owns ps room createRoom) ↔
    KeepsMaximums s ps (min room createRoom) := by
  induction ps generalizing room createRoom with
  | nil => exact ⟨fun _ => trivial, fun _ => List.Forall₂.nil⟩
  | cons p ps ih =>
    have hp := allowance_nonneg s p
    rw [purchases, purchase_eq, forall₂_cons, ih, KeepsMaximums]
    refine and_congr ?_ ?_
    · rw [spareOf]
      omega
    · exact keepsMaximums_congr s (by omega)

end

theorem exists_of_forall₂ {α β : Type} {R : α → β → Prop} {l : List α} {m : List β}
    (h : List.Forall₂ R l m) {b : β} (hb : b ∈ m) : ∃ a ∈ l, R a b := by
  induction h with
  | nil => exact absurd hb not_mem_nil
  | cons hab _ ih =>
    rcases mem_cons.mp hb with rfl | hm
    · exact ⟨_, mem_cons_self, hab⟩
    · obtain ⟨a, ha, hr⟩ := ih hm
      exact ⟨a, mem_cons_of_mem _ ha, hr⟩

theorem forall₂_of_common {α β γ : Type} {R : α → β → Prop} {S : α → γ → Prop}
    {T : β → γ → Prop} {l : List α} {m : List β} {n : List γ}
    (hT : ∀ a ∈ l, ∀ b c, R a b → S a c → T b c) (hR : List.Forall₂ R l m)
    (hS : List.Forall₂ S l n) : List.Forall₂ T m n := by
  induction hR generalizing n with
  | nil =>
    rw [forall₂_nil_left_iff.mp hS]
    exact List.Forall₂.nil
  | cons hab _ ih =>
    obtain ⟨c, n, hac, hrest, rfl⟩ := forall₂_cons_left_iff.mp hS
    exact List.Forall₂.cons (hT _ mem_cons_self _ _ hab hac)
      (ih (fun a ha => hT a (mem_cons_of_mem _ ha)) hrest)

section
variable (s : MachineSnapshot)

def providerIDs : List String := (s.providers.map Provider.id).dedup

theorem byProvider_isSome (id : String) :
    (byProvider s id).isSome = decide (id ∈ providerIDs s) := by
  rw [byProvider, lastWith_isSome, decide_eq_decide, providerIDs, mem_dedup]
  exact (sortStableFunc_perm.map Provider.id).mem_iff

theorem sum_machinesOf (kind : Machine → Bool) :
    ((providerIDs s).map (machinesOf s kind)).sum = fleetMachines s kind := by
  have hkeys := sum_countP_key Machine.providerID (sortedMachines s.machines) kind (providerIDs s)
    (nodup_dedup _)
  unfold fleetMachines
  simp only [byProvider_isSome]
  exact hkeys

structure CreatesWithinCeilings : Prop where
  provider : List.Forall₂ (fun p plan => machinesOf s isPending p.id + plan.create ≤
      max (machinesOf s isPending p.id) p.maxCreatesInFlight)
    (sortedProviders s.providers) (decideMachines s).providers
  fleet : ((providerIDs s).map (machinesOf s isPending)).sum +
      ((decideMachines s).providers.map ProviderPlan.create).sum ≤
    max ((providerIDs s).map (machinesOf s isPending)).sum s.limits.maxCreatesInFlight

structure MachinesWithinCeilings : Prop where
  provider : List.Forall₂ (fun p plan => plan.have_ = machinesOf s isHad p.id ∧
      plan.have_ + plan.create ≤ max plan.have_ p.maxMachines)
    (sortedProviders s.providers) (decideMachines s).providers
  fleet : ((providerIDs s).map (machinesOf s isHad)).sum +
      ((decideMachines s).providers.map ProviderPlan.create).sum ≤
    max ((providerIDs s).map (machinesOf s isHad)).sum s.limits.maxMachines

structure RoomForReservations : Prop where
  -- What the demand may take, of each provider and of the fleet, fits beside the machines that own a
  -- resource and those that will. A provider is held back by its own allowance or by what the
  -- fleet's ceilings leave of it after the providers before.
  provider : KeepsMaximums s (sortedProviders s.providers)
    (min (s.limits.maxMachines - fleetMachines s Machine.owns)
      (s.limits.maxCreatesInFlight - fleetMachines s isPending))
  fleet : min ((sortedProviders s.providers).map (allowance s)).sum
      (min (s.limits.maxMachines - fleetMachines s Machine.owns)
        (s.limits.maxCreatesInFlight - fleetMachines s isPending)) ≤
    max (s.limits.maxMachines - fleetMachines s isHad) 0

theorem createsWithinCeilings : CreatesWithinCeilings s := by
  obtain ⟨hall, hpos, -, hsum⟩ := purchases_within s Machine.owns (sortedProviders s.providers)
    (s.limits.maxMachines - fleetMachines s Machine.owns)
    (s.limits.maxCreatesInFlight - fleetMachines s isPending)
  have hcreate := decideMachines_create s
  rw [purchasesCounting] at hcreate
  rw [← hcreate] at hall hpos hsum
  constructor
  · rw [forall₂_map_right_iff] at hall
    exact hall.imp fun _ _ h => h.2.2.2
  · rw [sum_machinesOf]
    omega

theorem machinesWithinCeilings_iff : MachinesWithinCeilings s ↔ RoomForReservations s := by
  have hcreate := decideMachines_create s
  rw [purchasesCounting] at hcreate
  have hkeep := @purchases_keep_iff s (sortedProviders s.providers)
    (s.limits.maxMachines - fleetMachines s Machine.owns)
    (s.limits.maxCreatesInFlight - fleetMachines s isPending)
  have hsum := @purchases_sum s (sortedProviders s.providers)
    (s.limits.maxMachines - fleetMachines s Machine.owns)
    (s.limits.maxCreatesInFlight - fleetMachines s isPending)
  rw [← hcreate, forall₂_map_right_iff] at hkeep
  rw [← hcreate] at hsum
  constructor
  · intro h
    refine ⟨hkeep.mp (h.provider.imp fun p plan hp => hp.1 ▸ hp.2), ?_⟩
    have hfleet := h.fleet
    rw [sum_machinesOf] at hfleet
    omega
  · intro h
    constructor
    · refine List.Forall₂.mp (fun p plan hplan hwithin => ?_) (decideMachines_plans s)
        (hkeep.mpr h.provider)
      rw [hplan.2.1]
      exact ⟨rfl, hwithin⟩
    · have hfleet := h.fleet
      rw [sum_machinesOf]
      omega

theorem create_eq_zero_of_limit (h : s.limits.maxMachines ≤ 0) {plan : ProviderPlan}
    (hp : plan ∈ (decideMachines s).providers) : plan.create = 0 := by
  obtain ⟨hall, -, hsum, -⟩ := purchases_within s Machine.owns (sortedProviders s.providers)
    (s.limits.maxMachines - fleetMachines s Machine.owns)
    (s.limits.maxCreatesInFlight - fleetMachines s isPending)
  have hcreate := decideMachines_create s
  rw [purchasesCounting] at hcreate
  rw [← hcreate] at hall hsum
  have hnonneg : ∀ c ∈ (decideMachines s).providers.map ProviderPlan.create, 0 ≤ c := by
    intro c hc
    obtain ⟨p, -, hp⟩ := exists_of_forall₂ hall hc
    exact hp.1
  have hle := single_le_sum hnonneg _ (mem_map_of_mem hp)
  have hown : 0 ≤ fleetMachines s Machine.owns := Int.natCast_nonneg _
  have hpos := hnonneg _ (mem_map_of_mem hp)
  omega

end

structure MachineMoves (m m' : Machine) : Prop where
  id : m'.id = m.id
  providerID : m'.providerID = m.providerID
  state : canTransitionMachine m.state m'.state = true
  resource : m'.resourceID = m.resourceID ∨ (m.resourceID = "" ∧ m.state.pending = true)
  confirmed : m.deletedAt.isSome = true → m'.deletedAt = m.deletedAt

theorem isHad_of_moves {m m' : Machine} (h : MachineMoves m m') (hm : isHad m' = true) :
    isHad m = true := by
  unfold isHad Machine.owns at hm ⊢
  rw [Bool.or_eq_true, Bool.and_eq_true] at hm ⊢
  rcases hm with ⟨hid, hdel⟩ | hp
  · have hkept : m.deletedAt.isNone = true := by
      cases hd : m.deletedAt with
      | none => rfl
      | some t =>
        have hsame := h.confirmed (by rw [hd]; rfl)
        rw [hsame, hd] at hdel
        exact absurd hdel Bool.false_ne_true
    rcases h.resource with hsame | ⟨-, hpend⟩
    · rw [hsame] at hid
      exact .inl ⟨hid, hkept⟩
    · exact .inr hpend
  · exact .inr (pending_of_canTransition h.state hp)

structure Rented where
  machines : List Machine
  maxMachines : String → Int

def hadBy (machines : List Machine) (id : String) : Int :=
  (machines.countP fun m => m.providerID == id && isHad m : Nat)

def ownedBy (machines : List Machine) (id : String) : Int :=
  (machines.countP fun m => m.providerID == id && m.owns : Nat)

def CarriesOut (s : MachineSnapshot) (new : List Machine) : Prop :=
  (∀ m ∈ new, ∃ plan ∈ (decideMachines s).providers, plan.providerID = m.providerID) ∧
  ∀ plan ∈ (decideMachines s).providers,
    (new.countP fun m => m.providerID == plan.providerID : Nat) ≤ plan.create

inductive RentedStep : Rented → Rented → Prop
  | pass (f : Rented) (s : MachineSnapshot) (new : List Machine)
      (rows : s.machines = f.machines)
      (limits : ∀ p ∈ s.providers, p.maxMachines = f.maxMachines p.id)
      (counts : RoomForReservations s) (carried : CarriesOut s new) :
      RentedStep f { f with machines := f.machines ++ new }
  | move (f : Rented) (before after : List Machine) (m m' : Machine)
      (row : f.machines = before ++ m :: after) (moves : MachineMoves m m') :
      RentedStep f { f with machines := before ++ m' :: after }
  | forget (f : Rented) (before after : List Machine) (m : Machine)
      (row : f.machines = before ++ m :: after) :
      RentedStep f { f with machines := before ++ after }
  | raise (f : Rented) (maxMachines : String → Int) (raised : ∀ id, f.maxMachines id ≤ maxMachines id) :
      RentedStep f { f with maxMachines := maxMachines }

theorem hadBy_append (l m : List Machine) (id : String) :
    hadBy (l ++ m) id = hadBy l id + hadBy m id := by
  unfold hadBy
  rw [countP_append, Int.natCast_add]

theorem hadBy_cons (m : Machine) (l : List Machine) (id : String) :
    hadBy (m :: l) id = hadBy l id + if m.providerID = id ∧ isHad m = true then 1 else 0 := by
  unfold hadBy
  rw [countP_cons, Int.natCast_add]
  by_cases h : m.providerID = id
  · cases isHad m <;> simp [h]
  · simp [h]

theorem machinesOf_eq_hadBy (s : MachineSnapshot) (id : String) :
    machinesOf s isHad id = hadBy s.machines id := by
  unfold machinesOf hadBy sortedMachines
  rw [sortStableFunc_perm.countP_eq]

variable {f : Rented}

variable {id : String}

theorem hadBy_pass {s : MachineSnapshot} {new : List Machine} (rows : s.machines = f.machines)
    (limits : ∀ p ∈ s.providers, p.maxMachines = f.maxMachines p.id) (counts : RoomForReservations s)
    (carried : CarriesOut s new) :
    hadBy (f.machines ++ new) id ≤ max (hadBy f.machines id) (f.maxMachines id) := by
  rw [hadBy_append]
  by_cases hid : ∃ plan ∈ (decideMachines s).providers, plan.providerID = id
  · obtain ⟨plan, hplan, rfl⟩ := hid
    have hwithin := List.Forall₂.mp (fun p q hp hq => And.intro hp.1 hq)
      (decideMachines_plans s) ((machinesWithinCeilings_iff s).mpr counts).provider
    obtain ⟨p, hp, hpid, hhave, hle⟩ := exists_of_forall₂ hwithin hplan
    have hlimit : p.maxMachines = f.maxMachines p.id :=
      limits p (mem_sortStableFunc.mp hp)
    have hnew : hadBy new plan.providerID ≤ plan.create := by
      refine le_trans (Int.ofNat_le.mpr (countP_mono_left ?_)) (carried.2 plan hplan)
      intro m _ hm
      exact (Bool.and_eq_true _ _ ▸ hm).1
    rw [machinesOf_eq_hadBy, rows] at hhave
    rw [hpid] at hnew ⊢
    omega
  · have hnone : hadBy new id = 0 := by
      unfold hadBy
      rw [Int.natCast_eq_zero, countP_eq_zero]
      intro m hm hc
      rw [Bool.and_eq_true, beq_iff_eq] at hc
      obtain ⟨plan, hplan, he⟩ := carried.1 m hm
      exact hid ⟨plan, hplan, he.trans hc.1⟩
    omega

variable {f' : Rented}

theorem hadBy_step (h : RentedStep f f') (id : String) :
    hadBy f'.machines id ≤ max (hadBy f.machines id) (f'.maxMachines id) := by
  cases h with
  | pass s new rows limits counts carried =>
    exact hadBy_pass rows limits counts carried
  | move before after m m' row moves =>
    have hkept : (if m'.providerID = id ∧ isHad m' = true then (1 : Int) else 0) ≤
        if m.providerID = id ∧ isHad m = true then 1 else 0 := by
      by_cases hm : m'.providerID = id ∧ isHad m' = true
      · rw [if_pos hm, if_pos ⟨moves.providerID ▸ hm.1, isHad_of_moves moves hm.2⟩]
      · rw [if_neg hm]
        split <;> decide
    rw [row, hadBy_append, hadBy_append, hadBy_cons, hadBy_cons]
    omega
  | forget before after m row =>
    rw [row, hadBy_append, hadBy_append, hadBy_cons]
    split <;> omega
  | raise maxMachines raised => exact le_max_left _ _

theorem maxMachines_step (h : RentedStep f f') (id : String) :
    f.maxMachines id ≤ f'.maxMachines id := by
  cases h with
  | pass | move | forget => exact le_rfl
  | raise maxMachines raised => exact raised id

/-- Along a run whose passes count reservations, a provider has more machines than it may own only
if it had them to start with. -/
theorem hadBy_run (h : Relation.ReflTransGen RentedStep f f') :
    hadBy f'.machines id ≤ max (hadBy f.machines id) (f'.maxMachines id) := by
  induction h with
  | refl => exact le_max_left _ _
  | tail _ hstep ih =>
    have hhad := hadBy_step hstep id
    have hmax := maxMachines_step hstep id
    omega

theorem ownedBy_le_hadBy {machines : List Machine} : ownedBy machines id ≤ hadBy machines id := by
  apply Int.ofNat_le.mpr
  apply countP_mono_left
  intro m _ hm
  rw [Bool.and_eq_true] at hm ⊢
  exact ⟨hm.1, Bool.or_eq_true_iff.mpr (.inl hm.2)⟩

/-- Creates in flight keep within their ceilings, and a fleet that may own nothing buys nothing. The
ceilings on machines are kept in exactly those passes that have room for the machines reserved and
not yet created; over a run of such passes no provider owns more than it may unless it already had
more. -/
theorem machine_ceilings (s : MachineSnapshot) (f f' : Rented)
    (hrun : Relation.ReflTransGen RentedStep f f') (id : String) : (CreatesWithinCeilings s ∧
      (s.limits.maxMachines ≤ 0 → ∀ plan ∈ (decideMachines s).providers, plan.create = 0) ∧
      (MachinesWithinCeilings s ↔ RoomForReservations s)) ∧
    ownedBy f'.machines id ≤ max (hadBy f.machines id) (f'.maxMachines id) := by
  constructor
  · exact ⟨createsWithinCeilings s, create_eq_zero_of_limit s, machinesWithinCeilings_iff s⟩
  · exact ownedBy_le_hadBy.trans (hadBy_run hrun)

def shortFleet (machines : List Machine) (desired : Int) : MachineSnapshot where
  now := 0
  plans := [{ poolID := "linux", desired := desired, blockedNoEligibleHost := true }]
  pools := [{ id := "linux", name := "linux", enabled := true }]
  machines := machines
  providers := [
    { id := "lab"
      name := "lab"
      machineCapacity := 1
      maxMachines := 1
      maxCreatesInFlight := 2
      enabled := true }]
  limits := { maxMachines := 10, maxCreatesInFlight := 10 }

theorem machine_ceilings_first : MachinesWithinCeilings (shortFleet [] 1) ∧
    ownedBy [{ id := "m1", providerID := "lab", state := .creating, resourceID := "101" }] "lab" ≤ 1 := by
  have hcounts : RoomForReservations (shortFleet [] 1) :=
    ⟨⟨.inl (by decide +kernel), trivial⟩, by decide +kernel⟩
  have hcreate : (decideMachines (shortFleet [] 1)).providers.map
      (fun p => (p.providerID, p.create)) = [("lab", 1)] := by decide +kernel
  -- the pass reserves one machine, which is then given the identity it is created under
  have hpass : RentedStep ⟨[], fun _ => 1⟩ ⟨[{ id := "m1", providerID := "lab" }], fun _ => 1⟩ := by
    refine RentedStep.pass ⟨[], fun _ => 1⟩ (shortFleet [] 1) [{ id := "m1", providerID := "lab" }]
      rfl ?_ hcounts ⟨?_, ?_⟩
    · intro p hp
      rw [mem_singleton.mp hp]
    · intro m hm
      rw [mem_singleton.mp hm]
      have hmem : ("lab", (1 : Int)) ∈ (decideMachines (shortFleet [] 1)).providers.map
          (fun p => (p.providerID, p.create)) := hcreate ▸ mem_singleton_self _
      obtain ⟨plan, hplan, he⟩ := mem_map.mp hmem
      exact ⟨plan, hplan, (Prod.mk.inj he).1⟩
    intro plan hplan
    have hmem := hcreate ▸ mem_map_of_mem (f := fun p : ProviderPlan => (p.providerID, p.create)) hplan
    obtain ⟨hid, hone⟩ := Prod.mk.inj (mem_singleton.mp hmem)
    rw [hid, hone]
    decide
  have hmove : RentedStep ⟨[{ id := "m1", providerID := "lab" }], fun _ => 1⟩
      ⟨[{ id := "m1", providerID := "lab", state := .creating, resourceID := "101" }], fun _ => 1⟩ :=
    RentedStep.move ⟨[{ id := "m1", providerID := "lab" }], fun _ => 1⟩ [] [] _ _ rfl
      ⟨rfl, rfl, rfl, .inr ⟨rfl, rfl⟩, fun h => absurd h (by decide)⟩
  obtain ⟨⟨_, _, hiff⟩, howned⟩ := machine_ceilings (shortFleet [] 1) _ _
    ((Relation.ReflTransGen.single hpass).tail hmove) "lab"
  exact ⟨hiff.mpr hcounts, howned⟩

/-- A provider that may own one machine has one on its way, is asked for another, and owns two. -/
theorem reservation_not_counted :
    (decideMachines (shortFleet [{ id := "m1", providerID := "lab" }] 2)).providers.map
      (fun p => (p.providerID, p.have_, p.create)) = [("lab", 1, 1)] ∧
    (shortFleet [{ id := "m1", providerID := "lab" }] 2).providers.map Provider.maxMachines = [1] ∧
    MachineMoves { id := "m1", providerID := "lab" }
      { id := "m1", providerID := "lab", state := .creating, resourceID := "101" } ∧
    MachineMoves { id := "m2", providerID := "lab" }
      { id := "m2", providerID := "lab", state := .creating, resourceID := "102" } ∧
    ownedBy [{ id := "m1", providerID := "lab", state := .creating, resourceID := "101" },
      { id := "m2", providerID := "lab", state := .creating, resourceID := "102" }] "lab" = 2 := by
  refine ⟨by decide +kernel, rfl, ?_, ?_, by decide⟩
  · exact ⟨rfl, rfl, rfl, .inr ⟨rfl, rfl⟩, fun h => absurd h (by decide)⟩
  · exact ⟨rfl, rfl, rfl, .inr ⟨rfl, rfl⟩, fun h => absurd h (by decide)⟩

end Zoomies.Controller
