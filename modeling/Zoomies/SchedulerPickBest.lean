import Zoomies.SchedulerHostSet
import Zoomies.SchedulerReserveFacts

/-! When the host picked for a runner is a best one. -/
namespace Zoomies

section
variable {α β : Type} [CommRing β] [LinearOrder β] [IsStrictOrderedRing β]

def Banded (l : List α) (f : α → β) (band : β) : Prop :=
  ∀ a ∈ l, ∀ b ∈ l, ∀ c ∈ l, |f a - f b| ≤ band → |f b - f c| ≤ band → |f a - f c| ≤ band

variable {l : List α}

theorem Banded.tiers {f : α → β} {band : β} (h : Banded l f band) (hband : 0 ≤ band) :
    Tiers l fun a b => f a + band < f b where
  asymm a _ b _ hab hba := by linarith
  split a ha b hb c hc hac := by
    by_contra hno
    rw [not_or, not_lt, not_lt] at hno
    have hab : |f a - f b| ≤ band := abs_le.mpr ⟨by linarith, by linarith⟩
    have hbc : |f b - f c| ≤ band := abs_le.mpr ⟨by linarith, by linarith⟩
    have hfar := abs_le.mp (h a ha b hb c hc hab hbc)
    linarith [hfar.1]

omit [IsStrictOrderedRing β] in
theorem Banded.neg {f : α → β} {band : β} (h : Banded l f band) :
    Banded l (fun a => -f a) band := by
  intro a ha b hb c hc
  have hneg : ∀ x y : β, |-x - -y| = |x - y| := fun x y => by rw [neg_sub_neg, abs_sub_comm]
  simp only [hneg]
  exact h a ha b hb c hc

theorem Tiers.guard {c : Prop} {before : α → α → Prop} (h : c → Tiers l before) :
    Tiers l fun a b => c ∧ before a b where
  asymm a ha b hb hab hba := (h hab.1).asymm a ha b hb hab.2 hba.2
  split a ha b hb d hd hac :=
    ((h hac.1).split a ha b hb d hd hac.2).imp (fun hab => ⟨hac.1, hab⟩) fun hbd => ⟨hac.1, hbd⟩

end

theorem filter_key_of_sublist {α κ : Type} [BEq κ] [LawfulBEq κ] {key : α → κ} {s l : List α}
    (hnd : (l.map key).Nodup) (h : s.Sublist l) :
    l.filter (fun x => (s.map key).contains (key x)) = s := by
  induction h with
  | slnil => rfl
  | @cons s l x h ih =>
    rw [List.map_cons, List.nodup_cons] at hnd
    have hx : key x ∉ s.map key := fun hmem => hnd.1 ((h.map key).subset hmem)
    rw [List.filter_cons_of_neg (by simpa using hx), ih hnd.2]
  | @cons_cons s l x h ih =>
    rw [List.map_cons, List.nodup_cons] at hnd
    rw [List.filter_cons_of_pos (by simp)]
    refine congrArg (x :: ·) ((List.filter_congr fun y hy => ?_).trans (ih hnd.2))
    have hne : key y ≠ key x := fun he => hnd.1 (he ▸ List.mem_map_of_mem hy)
    rw [List.map_cons, List.contains_cons, beq_false_of_ne hne, Bool.false_or]

end Zoomies

namespace Zoomies.Scheduler
open Zoomies.Go Zoomies.Store

namespace HostSet
variable (hs : HostSet) (p : Pool)

def able : List Host := hs.hosts.filter fun h => hs.eligible h p

def measured (h : Host) : Bool := (hs.alloc h.id).cpusKnown || (hs.alloc h.id).memoryKnown

structure ClearCut : Prop where
  -- no chain of near ties joins two hosts that are apart, and all of them are measured or none is
  measured : ∀ a ∈ hs.able p, ∀ b ∈ hs.able p, hs.measured a = hs.measured b
  ready : hs.preferReadiness = true →
    Banded (hs.able p) (fun h => (hs.readyDelay h p : ℤ)) (5 * second)
  standard : hs.order = .largestStandard → Banded (hs.able p) (fun h => (reserve p h).cpus) cpuEpsilon
  score : (∀ h ∈ hs.able p, hs.measured h = true) →
    Banded (hs.able p) (fun h => hs.score h p) cpuEpsilon

def roomBefore (m : Bool) : Host → Host → Prop :=
  lexBefore (fun a b => m = true ∧ -hs.score a p + cpuEpsilon < -hs.score b p)
    fun a b => -hs.free a.id < -hs.free b.id

def tightBefore (m : Bool) : Host → Host → Prop :=
  lexBefore (fun a b => m = true ∧ hs.score a p + cpuEpsilon < hs.score b p)
    fun a b => hs.free a.id < hs.free b.id

def largestBefore (m : Bool) : Host → Host → Prop :=
  lexBefore (fun a b => -(reserve p a).cpus + cpuEpsilon < -(reserve p b).cpus)
    (lexBefore (fun a b => -(reserve p a).memoryMB < -(reserve p b).memoryMB) (hs.roomBefore p m))

def orderBefore (m : Bool) : Host → Host → Prop :=
  match hs.order with
  | .largestStandard => hs.largestBefore p m
  | .bestFit => hs.tightBefore p m
  | .headroom => hs.roomBefore p m

def before (m : Bool) : Host → Host → Prop :=
  lexBefore (fun a b => hs.preferReadiness = true ∧
      (hs.readyDelay a p : ℤ) + 5 * second < hs.readyDelay b p)
    (lexBefore (fun a b => -hostPriority a < -hostPriority b) (hs.orderBefore p m))

theorem near_iff {x y band : ℚ} (hx : ¬ x + band < y) (hy : ¬ y + band < x) : |x - y| ≤ band :=
  abs_le.mpr ⟨by linarith, by linarith⟩

variable {a b : Host} {m : Bool}

theorem roomier_iff (ha : hs.measured a = m) (hb : hs.measured b = m) :
    hs.roomier a b p = true ↔ hs.roomBefore p m a b := by
  have hcond : (!(hs.alloc a.id).cpusKnown && !(hs.alloc a.id).memoryKnown &&
      !(hs.alloc b.id).cpusKnown && !(hs.alloc b.id).memoryKnown) = !m := by
    unfold measured at ha hb
    rw [Bool.and_assoc, ← Bool.not_or, ← Bool.not_or, ha, hb, Bool.and_self]
  unfold roomier roomBefore lexBefore
  dsimp only
  rw [hcond]
  cases m with
  | false => simp
  | true =>
    simp only [Bool.not_true, Bool.false_eq_true, if_false, Bool.or_eq_true, Bool.and_eq_true,
      decide_eq_true_eq, true_and]
    constructor
    · rintro (hmore | ⟨hnear, hfree⟩)
      · exact .inl (by linarith)
      · exact .inr ⟨by linarith [(abs_le.mp hnear).1], by omega⟩
    rintro (hmore | ⟨hnot, hfree⟩)
    · exact .inl (by linarith)
    by_cases hmore : hs.score a p > hs.score b p + cpuEpsilon
    · exact .inl hmore
    · exact .inr ⟨near_iff (by linarith) hmore, by omega⟩

theorem tighter_iff : hs.tighter a b p m = true ↔ hs.tightBefore p m a b := by
  unfold tighter tightBefore lexBefore
  cases m with
  | false => simp
  | true =>
    have heps := cpuEpsilon_pos
    simp only [Bool.true_and, decide_eq_true_eq, true_and]
    split
    · rename_i hfar
      rw [decide_eq_true_iff]
      constructor
      · intro hless
        by_contra hno
        rw [not_or] at hno
        exact absurd (near_iff hno.1 (by linarith)) (not_le.mpr hfar)
      rintro (hless | ⟨hnot, -⟩)
      · linarith
      · by_contra hge
        exact absurd (near_iff (by linarith) hnot) (not_le.mpr hfar)
    · rename_i hnear
      have habs := abs_le.mp (not_lt.mp hnear)
      rw [decide_eq_true_iff]
      constructor
      · exact fun hfree => .inr ⟨by linarith [habs.2], hfree⟩
      rintro (hless | ⟨-, hfree⟩)
      · linarith [habs.1]
      · exact hfree

theorem largest_iff (ha : hs.measured a = m) (hb : hs.measured b = m) :
    (match compareStandard (reserve p a) (reserve p b) with
      | .gt => true
      | .lt => false
      | .eq => hs.roomier a b p) = true ↔ hs.largestBefore p m a b := by
  unfold compareStandard largestBefore
  split_ifs with hcpu hcpu' hmemory hmemory'
  · exact iff_of_true rfl (.inl (by linarith))
  · exact iff_of_false id (not_lexBefore (by linarith) (by linarith))
  · rw [lexBefore_of_tie (by linarith) (by linarith)]
    exact iff_of_true rfl (.inl (neg_lt_neg hmemory))
  · rw [lexBefore_of_tie (by linarith) (by linarith)]
    exact iff_of_false id (not_lexBefore (by omega) (by omega))
  · rw [lexBefore_of_tie (by linarith) (by linarith), lexBefore_of_tie (by omega) (by omega)]
    exact hs.roomier_iff p ha hb

theorem preferByOrder_iff (ha : hs.measured a = m)
    (hb : hs.measured b = m) : hs.preferByOrder a b p = true ↔
      lexBefore (fun a b => -hostPriority a < -hostPriority b) (hs.orderBefore p m) a b := by
  have hm : (((hs.alloc a.id).cpusKnown || (hs.alloc a.id).memoryKnown) &&
      ((hs.alloc b.id).cpusKnown || (hs.alloc b.id).memoryKnown)) = m := by
    unfold measured at ha hb
    rw [ha, hb, Bool.and_self]
  unfold preferByOrder orderBefore
  dsimp only
  rw [hm]
  by_cases hpriority : hostPriority a = hostPriority b
  · rw [if_neg (not_not.mpr hpriority),
      lexBefore_of_tie (by rw [hpriority]; exact lt_irrefl _) (by rw [hpriority]; exact lt_irrefl _)]
    cases hs.order with
    | headroom => exact hs.roomier_iff p ha hb
    | bestFit => exact hs.tighter_iff p
    | largestStandard => exact hs.largest_iff p ha hb
  rw [if_pos hpriority, decide_eq_true_iff]
  constructor
  · exact fun h => .inl (neg_lt_neg h)
  rintro (h | ⟨h, -⟩)
  · exact neg_lt_neg_iff.mp h
  · omega

theorem prefer_iff (ha : hs.measured a = m) (hb : hs.measured b = m) :
    hs.prefer a b p = true ↔ hs.before p m a b := by
  have horder := hs.preferByOrder_iff p ha hb
  unfold prefer before
  cases hs.preferReadiness with
  | false =>
    rw [lexBefore_of_tie (fun h => Bool.false_ne_true h.1) fun h => Bool.false_ne_true h.1]
    exact horder
  | true =>
    simp only [Bool.true_and, decide_eq_true_eq, true_and]
    split_ifs with hready hready'
    · exact iff_of_true rfl (.inl hready)
    · exact iff_of_false id (not_lexBefore hready hready')
    rw [horder]
    refine (lexBefore_of_tie ?_ ?_).symm
    · exact hready
    · exact hready'

theorem before_tiers (h : hs.ClearCut p) (hm : ∀ a ∈ hs.able p, hs.measured a = m) :
    Tiers (hs.able p) (hs.before p m) := by
  have heps := cpuEpsilon_pos.le
  have hfree : ∀ f : Host → ℤ, Tiers (hs.able p) fun a b => f a < f b := fun f => Tiers.key f
  have hscore : m = true → Banded (hs.able p) (fun h => hs.score h p) cpuEpsilon := fun htrue =>
    h.score fun a ha => (hm a ha).trans htrue
  have hroom : Tiers (hs.able p) (hs.roomBefore p m) :=
    (Tiers.guard fun htrue => (hscore htrue).neg.tiers heps).lex (hfree fun a => -hs.free a.id)
  refine (Tiers.guard fun hr => (h.ready hr).tiers (by decide)).lex
    ((hfree fun a => -hostPriority a).lex ?_)
  unfold orderBefore
  split
  · rename_i horder
    exact ((h.standard horder).neg.tiers heps).lex
      ((hfree fun a => -(reserve p a).memoryMB).lex hroom)
  · exact (Tiers.guard fun htrue => (hscore htrue).tiers heps).lex (hfree fun a => hs.free a.id)
  · exact hroom

theorem prefer_irrefl (h : hs.ClearCut p) (ha : a ∈ hs.able p) : hs.prefer a a p = false := by
  rw [← Bool.not_eq_true, hs.prefer_iff p rfl rfl]
  exact fun hlt => (hs.before_tiers p h fun b hb => h.measured b hb a ha).asymm a ha a ha hlt hlt

theorem prefer_trans (h : hs.ClearCut p) {c : Host} (ha : a ∈ hs.able p) (hb : b ∈ hs.able p)
    (hc : c ∈ hs.able p) (hab : hs.prefer a b p = true) (hbc : hs.prefer b c p = true) :
    hs.prefer a c p = true := by
  have hma := h.measured a ha c hc
  have hmb := h.measured b hb c hc
  rw [hs.prefer_iff p hma hmb] at hab
  rw [hs.prefer_iff p hmb rfl] at hbc
  rw [hs.prefer_iff p hma rfl]
  exact (hs.before_tiers p h fun x hx => h.measured x hx c hc).trans ha hb hc hab hbc

def PicksBest (avoid : String → Bool) : Prop :=
  ∀ b, hs.pick p avoid = some b → b ∈ hs.hosts ∧ hs.eligible b p = true ∧
    (avoid b.id = false → ∀ a ∈ hs.hosts, hs.eligible a p = true → avoid a.id = false →
      hs.prefer a b p = false) ∧
    (avoid b.id = true → ∀ a ∈ hs.hosts, hs.eligible a p = true →
      avoid a.id = true ∧ hs.prefer a b p = false)

theorem mem_able : a ∈ hs.able p ↔ a ∈ hs.hosts ∧ hs.eligible a p = true := List.mem_filter

theorem picksBest_of_neverLost (h : NeverLost (fun a b => hs.prefer a b p) (hs.able p))
    (avoid : String → Bool) : hs.PicksBest p avoid := by
  have hbest : ∀ f : Host → Bool, ∀ b,
      bestChoice (fun a best => hs.prefer a best p) ((hs.able p).filter f) = some b →
        (b ∈ hs.able p ∧ f b = true) ∧ ∀ a ∈ (hs.able p).filter f, hs.prefer a b p = false :=
    fun f b hb => ⟨List.mem_filter.mp (bestChoice_mem hb),
      bestChoice_best_iff.mpr h _ List.filter_sublist b hb⟩
  intro b hb
  rcases Option.or_eq_some_iff.mp hb with hfree | ⟨hnone, havoided⟩
  · obtain ⟨⟨hable, hnot⟩, hleast⟩ := hbest _ b hfree
    rw [Bool.not_eq_true'] at hnot
    refine ⟨((hs.mem_able p).mp hable).1, ((hs.mem_able p).mp hable).2, fun _ a ha he hna => ?_,
      fun htrue => ?_⟩
    · exact hleast a (List.mem_filter.mpr ⟨(hs.mem_able p).mpr ⟨ha, he⟩, by rw [hna]; rfl⟩)
    · rw [hnot] at htrue
      cases htrue
  obtain ⟨⟨hable, hin⟩, hleast⟩ := hbest _ b havoided
  refine ⟨((hs.mem_able p).mp hable).1, ((hs.mem_able p).mp hable).2, fun hfalse => ?_,
    fun _ a ha he => ?_⟩
  · rw [hin] at hfalse
    cases hfalse
  -- no host was left to prefer, so every eligible one is avoided
  have hempty := bestChoice_eq_none_iff.mp hnone
  have hava : avoid a.id = true := by
    have hnot := List.filter_eq_nil_iff.mp hempty a ((hs.mem_able p).mpr ⟨ha, he⟩)
    rwa [Bool.not_eq_true', Bool.not_eq_false] at hnot
  exact ⟨hava, hleast a (List.mem_filter.mpr ⟨(hs.mem_able p).mpr ⟨ha, he⟩, hava⟩)⟩

/-- Avoiding all but some of the hosts leaves just these to choose from. -/
theorem neverLost_of_picksBest (hids : (hs.hosts.map Host.id).Nodup)
    (h : ∀ avoid, hs.PicksBest p avoid) : NeverLost (fun a b => hs.prefer a b p) (hs.able p) := by
  refine bestChoice_best_iff.mp fun s hs' b hb x hx => ?_
  have hin : ∀ a ∈ s, a ∈ hs.hosts ∧ hs.eligible a p = true := fun a ha =>
    (hs.mem_able p).mp (hs'.subset ha)
  have hleft : (hs.able p).filter (fun a => !!(s.map Host.id).contains a.id) = s := by
    simp only [Bool.not_not]
    exact filter_key_of_sublist ((List.filter_sublist.map Host.id).nodup hids) hs'
  have hkept : ∀ a ∈ s, (!(s.map Host.id).contains a.id) = false := fun a ha => by
    simpa using ⟨a, ha, rfl⟩
  have hpick : hs.pick p (fun id => !(s.map Host.id).contains id) = some b := by
    rw [pick, ← able, hleft, hb]
    rfl
  exact (h _ b hpick).2.2.1 (hkept b (bestChoice_mem hb)) x (hin x hx).1 (hin x hx).2 (hkept x hx)

/-- For every avoid set the host picked is eligible and none is preferred to it, among the avoided
ones where all are, exactly when no climb through the eligible hosts ends behind one it passed. -/
theorem pick_best : ((hs.hosts.map Host.id).Nodup → ((∀ avoid, hs.PicksBest p avoid) ↔
      NeverLost (fun a b => hs.prefer a b p) (hs.able p))) ∧
    (hs.ClearCut p → ∀ avoid, hs.PicksBest p avoid) := by
  refine ⟨fun hids => ⟨hs.neverLost_of_picksBest p hids, hs.picksBest_of_neverLost p⟩, fun h => ?_⟩
  refine hs.picksBest_of_neverLost p (.of_trans (fun x hx => hs.prefer_irrefl p h hx) ?_)
  exact fun x hx y hy z hz => hs.prefer_trans p h hx hy hz

def chain (preferReadiness : Bool) : HostSet :=
  { newHostSet
      [{ id := "h1", capacity := 1, backends := ["docker"], lastHeartbeat := hour },
       { id := "h2", capacity := 2, backends := ["docker"], lastHeartbeat := hour },
       { id := "h3", capacity := 3, backends := ["docker"], lastHeartbeat := hour }] [] [] hour with
    preferReadiness := preferReadiness
    readiness := fun _ id =>
      if id = "h1" then 60 * second else if id = "h2" then 64 * second else 68 * second }

/-- Each host beats the one before it on slots, and the last is eight seconds behind the first. -/
theorem chain_preferred : ((chain true).pick {} fun _ => false).map Host.id = some "h3" ∧
    ∃ a ∈ (chain true).hosts, a.id = "h1" ∧ (chain true).eligible a {} = true ∧
      ∀ b ∈ (chain true).hosts, b.id = "h3" → (chain true).prefer a b {} = true := by
  decide +kernel

theorem chain_best : ∃ b, (chain false).pick {} (fun _ => false) = some b ∧ b.id = "h3" ∧
    ∀ a ∈ (chain false).hosts, (chain false).eligible a {} = true →
      (chain false).prefer a b {} = false := by
  have hclear : (chain false).ClearCut {} := by
    refine ⟨by decide +kernel, fun hready => (by cases hready), fun horder => (by cases horder), ?_⟩
    intro hall
    exact absurd hall (by decide +kernel)
  obtain ⟨b, hb, hid⟩ : ∃ b, (chain false).pick {} (fun _ => false) = some b ∧ b.id = "h3" := by
    decide +kernel
  refine ⟨b, hb, hid, fun a ha he => ?_⟩
  exact ((pick_best _ _).2 hclear _ b hb).2.2.1 rfl a ha he rfl

end HostSet

end Zoomies.Scheduler
