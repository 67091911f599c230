import Mathlib.Algebra.Order.Group.Int.Sum
import Mathlib.Data.List.TakeWhile
import Zoomies.KeyedList

/-! Half-open intervals: how much of one lies in another, and how many share an instant, counted over
their edges. -/
namespace Zoomies
open List

section
def overlap (a b lo hi : Int) : Int := max 0 (min b hi - max a lo)

theorem overlap_nonneg {a b lo hi : Int} : 0 ≤ overlap a b lo hi := le_max_left _ _

theorem overlap_eq_zero_iff {a b lo hi : Int} : overlap a b lo hi = 0 ↔ min b hi ≤ max a lo := by
  unfold overlap
  omega

variable {a b lo hi : Int}

theorem overlap_inside (hab : a ≤ b) (ha : lo ≤ a) (hb : b ≤ hi) : overlap a b lo hi = b - a := by
  unfold overlap
  omega

theorem overlap_outside (h : b ≤ lo ∨ hi ≤ a) : overlap a b lo hi = 0 := by
  unfold overlap
  omega

theorem overlap_split {m : Int} (ham : a ≤ m) (hmb : m ≤ b) :
    overlap a m lo hi + overlap m b lo hi = overlap a b lo hi := by
  unfold overlap
  omega

theorem overlap_split_window {m : Int} (hlm : lo ≤ m) (hmh : m ≤ hi) :
    overlap a b lo m + overlap a b m hi = overlap a b lo hi := by
  unfold overlap
  omega

theorem overlap_clip {lo' hi' : Int} (hlo : lo' ≤ lo) (hhi : hi ≤ hi') :
    overlap (max a lo') (min b hi') lo hi = overlap a b lo hi := by
  unfold overlap
  omega

def cuts (next : Int → Int) : Nat → Int → Int → List (Int × Int)
  | 0, _, _ => []
  | n + 1, start, stop =>
    if start < stop then
      (start, min stop (next start)) :: cuts next n (min stop (next start)) stop
    else []

def cutFuel (start stop : Int) : Nat := (stop - start).toNat

section
variable {next : Int → Int} (hnext : ∀ a, a < next a)
include hnext

theorem mem_cuts {n : Nat} (start : Int) {stop : Int} {p : Int × Int} (hp : p ∈ cuts next n start stop) :
    start ≤ p.1 ∧ p.1 < p.2 ∧ p.2 ≤ stop ∧ p.2 ≤ next p.1 := by
  induction n generalizing start with
  | zero => cases hp
  | succ n ih =>
    rw [cuts] at hp
    split_ifs at hp with hlt
    · have hstep := hnext start
      rcases List.mem_cons.mp hp with rfl | hrest
      · exact ⟨le_refl _, lt_min hlt hstep, min_le_left _ _, min_le_right _ _⟩
      · obtain ⟨hfrom, hmore⟩ := ih _ hrest
        exact ⟨le_trans (le_min hlt.le hstep.le) hfrom, hmore⟩
    · cases hp

theorem sum_cuts {M : Type} [AddCommGroup M] (g : Int → Int → M)
    (hg : ∀ a b c, a ≤ b → b ≤ c → g a b + g b c = g a c) {n : Nat} (start : Int) {stop : Int}
    (hle : start ≤ stop) (hn : cutFuel start stop ≤ n) :
    ((cuts next n start stop).map fun p => g p.1 p.2).sum = g start stop := by
  have hnone : ∀ a, g a a = 0 := fun a => by
    have h := hg a a a (le_refl a) (le_refl a)
    exact left_eq_add.mp h.symm
  induction n generalizing start with
  | zero =>
    have hse : start = stop := by
      unfold cutFuel at hn
      omega
    rw [hse, hnone]
    rfl
  | succ n ih =>
    rw [cuts]
    split_ifs with hlt
    · have hstep := hnext start
      have hle' : min stop (next start) ≤ stop := min_le_left _ _
      have hge : start < min stop (next start) := lt_min hlt hstep
      have hfuel : cutFuel (min stop (next start)) stop ≤ n := by
        unfold cutFuel at hn ⊢
        omega
      rw [List.map_cons, List.sum_cons, ih _ hle' hfuel]
      exact hg _ _ _ hge.le hle'
    · have hse : start = stop := le_antisymm hle (not_lt.mp hlt)
      rw [hse, hnone]
      rfl

theorem sum_overlap_cuts (start stop lo hi : Int) :
    ((cuts next (cutFuel start stop) start stop).map fun p => overlap p.1 p.2 lo hi).sum =
      overlap start stop lo hi := by
  by_cases hle : start ≤ stop
  · exact sum_cuts hnext (fun a b => overlap a b lo hi)
      (fun a b c hab hbc => overlap_split hab hbc) start hle (le_refl _)
  have hempty : cutFuel start stop = 0 := by
    unfold cutFuel
    omega
  have hzero : overlap start stop lo hi = 0 := by
    unfold overlap
    omega
  rw [hempty, hzero]
  rfl

end

end

structure Edge (τ : Type) where
  instant : τ
  delta : Int
deriving DecidableEq

variable {τ : Type} [LinearOrder τ]

def sweepStep (acc : Int × Int) (e : Edge τ) : Int × Int :=
  let cur := acc.1 + e.delta
  (cur, if cur > acc.2 then cur else acc.2)

def sweep (es : List (Edge τ)) : Int := (es.foldl sweepStep (0, 0)).2

def level (es : List (Edge τ)) (t : τ) : Int :=
  ((es.filter fun e => e.instant ≤ t).map Edge.delta).sum

theorem level_append (a b : List (Edge τ)) (t : τ) : level (a ++ b) t = level a t + level b t := by
  rw [level, filter_append, map_append, sum_append, level, level]

def EdgesSorted (es : List (Edge τ)) : Prop :=
  es.Pairwise fun a b => a.instant < b.instant ∨ a.instant = b.instant ∧ a.delta ≤ b.delta

omit [LinearOrder τ] in
theorem sweepStep_eq (cur peak : Int) (e : Edge τ) :
    sweepStep (cur, peak) e = (cur + e.delta, max (cur + e.delta) peak) := by
  unfold sweepStep
  dsimp only
  congr 1
  split_ifs <;> omega

omit [LinearOrder τ] in
theorem foldl_sweep {es : List (Edge τ)} (cur peak : Int) (hle : cur ≤ peak) :
    (∀ p q, es = p ++ q → cur + (p.map Edge.delta).sum ≤ (es.foldl sweepStep (cur, peak)).2) ∧
    peak ≤ (es.foldl sweepStep (cur, peak)).2 ∧ ((es.foldl sweepStep (cur, peak)).2 = peak ∨
      ∃ p q, es = p ++ q ∧ (es.foldl sweepStep (cur, peak)).2 = cur + (p.map Edge.delta).sum) := by
  induction es generalizing cur peak with
  | nil =>
    refine ⟨fun p q h => ?_, le_refl _, .inl rfl⟩
    have hp : p = [] := (append_eq_nil_iff.mp h.symm).1
    rw [hp, map_nil, sum_nil, add_zero]
    exact hle
  | cons e rest ih =>
    rw [foldl_cons, sweepStep_eq]
    obtain ⟨hall, hge, hsome⟩ := ih (cur + e.delta) (max (cur + e.delta) peak) (le_max_left _ _)
    refine ⟨fun p q h => ?_, le_trans (le_max_right _ _) hge, ?_⟩
    · cases p with
      | nil =>
        rw [map_nil, sum_nil, add_zero]
        exact le_trans hle (le_trans (le_max_right _ _) hge)
      | cons f p =>
        obtain ⟨rfl, hrest⟩ := cons_eq_cons.mp h
        have h' := hall p q hrest
        rw [map_cons, sum_cons]
        omega
    · rcases hsome with h | ⟨p, q, hpq, h⟩
      · rcases le_total (cur + e.delta) peak with hc | hc
        · exact .inl (h.trans (max_eq_right hc))
        refine .inr ⟨[e], rest, rfl, ?_⟩
        rw [h, max_eq_left hc]
        simp
      refine .inr ⟨e :: p, q, by rw [hpq, cons_append], ?_⟩
      rw [h, map_cons, sum_cons]
      omega

variable {es : List (Edge τ)}

theorem level_le_sweep (hs : EdgesSorted es) {t : τ} : level es t ≤ sweep es := by
  have hfirst : (es.filter fun e => e.instant ≤ t) = es.takeWhile fun e => e.instant ≤ t := by
    induction es with
    | nil => rfl
    | cons e rest ih =>
      obtain ⟨hhead, htail⟩ := pairwise_cons.mp hs
      by_cases he : e.instant ≤ t
      · rw [filter_cons_of_pos (by simpa using he), takeWhile_cons_of_pos (by simpa using he),
          ih htail]
      rw [filter_cons_of_neg (by simpa using he), takeWhile_cons_of_neg (by simpa using he)]
      apply filter_eq_nil_iff.mpr
      intro f hf hle
      have hft : f.instant ≤ t := of_decide_eq_true hle
      rcases hhead f hf with h | h
      · exact he (le_trans (le_of_lt h) hft)
      · exact he (h.1 ▸ hft)
  have hall := (foldl_sweep 0 0 (le_refl 0)).1 (es.takeWhile fun e => e.instant ≤ t)
    (es.dropWhile fun e => e.instant ≤ t) takeWhile_append_dropWhile.symm
  rw [level, hfirst]
  rw [zero_add] at hall
  exact hall

/-- What some first edges add up to is reached at an instant, or is nothing. -/
theorem sum_le_level {p : List (Edge τ)} (q : List (Edge τ)) (hs : EdgesSorted es)
    (hpq : es = p ++ q) :
    (p.map Edge.delta).sum ≤ 0 ∨ ∃ t, (p.map Edge.delta).sum ≤ level es t := by
  induction p using List.reverseRecOn generalizing q with
  | nil => exact .inl (le_refl 0)
  | append_singleton p e ih =>
    have hsum : ((p ++ [e]).map Edge.delta).sum = (p.map Edge.delta).sum + e.delta := by simp
    by_cases hneg : e.delta ≤ 0
    · rcases ih (e :: q) (by rw [hpq, append_assoc, singleton_append]) with h | ⟨t, ht⟩
      · exact .inl (by omega)
      · exact .inr ⟨t, by omega⟩
    refine .inr ⟨e.instant, ?_⟩
    have hsplit : (p ++ [e] ++ q).Pairwise fun a b =>
        a.instant < b.instant ∨ a.instant = b.instant ∧ a.delta ≤ b.delta := hpq ▸ hs
    obtain ⟨hp, -, hcross⟩ := pairwise_append.mp hsplit
    obtain ⟨-, -, hlast⟩ := pairwise_append.mp hp
    have hbefore : ((p ++ [e]).filter fun f => f.instant ≤ e.instant) = p ++ [e] := by
      apply filter_eq_self.mpr
      intro f hf
      rcases mem_append.mp hf with h | h
      · rcases hlast f h e mem_cons_self with hlt | heq
        · exact decide_eq_true (le_of_lt hlt)
        · exact decide_eq_true (le_of_eq heq.1)
      · rw [mem_singleton.mp h]
        exact decide_eq_true (le_refl _)
    have hafter : 0 ≤ ((q.filter fun f => f.instant ≤ e.instant).map Edge.delta).sum := by
      apply sum_nonneg
      intro d hd
      obtain ⟨f, hf, rfl⟩ := mem_map.mp hd
      obtain ⟨hmem, hle⟩ := mem_filter.mp hf
      rcases hcross e (mem_append_right _ mem_cons_self) f hmem with hlt | heq
      · exact absurd (of_decide_eq_true hle) (not_le.mpr hlt)
      · omega
    have hlevel : level (p ++ [e]) e.instant = ((p ++ [e]).map Edge.delta).sum := by
      rw [level, hbefore]
    have hrest : 0 ≤ level q e.instant := hafter
    rw [hpq, level_append]
    omega

def edges (spans : List (τ × τ)) : List (Edge τ) :=
  spans.flatMap fun s => [⟨s.1, 1⟩, ⟨s.2, -1⟩]

def active (spans : List (τ × τ)) (t : τ) : Int :=
  (spans.map fun s => if s.1 ≤ t ∧ t < s.2 then (1 : Int) else 0).sum

variable {spans : List (τ × τ)}

theorem active_nonneg (t : τ) : 0 ≤ active spans t := by
  apply sum_nonneg
  intro n hn
  obtain ⟨s, -, rfl⟩ := mem_map.mp hn
  split_ifs <;> decide

structure IsPeak (f : τ → Int) (m : Int) : Prop where
  nonneg : 0 ≤ m
  le : ∀ t, f t ≤ m
  reached : m = 0 ∨ ∃ t, f t = m

theorem level_edges (hs : ∀ s ∈ spans, s.1 ≤ s.2) {t : τ} :
    level (edges spans) t = active spans t := by
  induction spans with
  | nil => rfl
  | cons s rest ih =>
    have hle := hs s mem_cons_self
    have htail := ih fun x hx => hs x (mem_cons_of_mem _ hx)
    have hpair : level [⟨s.1, 1⟩, ⟨s.2, -1⟩] t = if s.1 ≤ t ∧ t < s.2 then (1 : Int) else 0 := by
      unfold level
      by_cases h1 : s.1 ≤ t
      · by_cases h2 : s.2 ≤ t
        · simp [h1, h2, not_lt.mpr h2]
        · simp [h1, h2, not_le.mp h2]
      · have h2 : ¬s.2 ≤ t := fun h => h1 (le_trans hle h)
        simp [h1, h2]
    rw [edges, flatMap_cons, level_append, ← edges, htail, hpair, active, active, map_cons,
      sum_cons]

theorem sweep_isPeak (hs : ∀ s ∈ spans, s.1 ≤ s.2)
    (hp : es.Perm (edges spans)) (hsorted : EdgesSorted es) : IsPeak (active spans) (sweep es) := by
  have hlevel : ∀ t, level es t = active spans t := by
    intro t
    rw [← level_edges hs]
    exact ((hp.filter _).map _).sum_eq
  have hle : ∀ t, active spans t ≤ sweep es := fun t => hlevel t ▸ level_le_sweep hsorted
  obtain ⟨-, hzero, hreached⟩ := foldl_sweep 0 0 (le_refl 0)
  refine ⟨hzero, hle, ?_⟩
  rcases hreached with h | ⟨p, q, hpq, h⟩
  · exact .inl h
  have hsum : sweep es = (p.map Edge.delta).sum := h.trans (zero_add _)
  rcases sum_le_level q hsorted hpq with hnone | ⟨t, ht⟩
  · exact .inl (le_antisymm (hsum ▸ hnone) hzero)
  · exact .inr ⟨t, le_antisymm (hle t) (hlevel t ▸ hsum ▸ ht)⟩

omit [LinearOrder τ] in
theorem IsPeak.add (f g : τ → Int) (m n k : Int) (hf : IsPeak f m) (hg : IsPeak g n)
    (hfg : IsPeak (fun t => f t + g t) k) (hf0 : ∀ t, 0 ≤ f t) (hg0 : ∀ t, 0 ≤ g t)
    (hone : ∀ t, f t = 0 ∨ g t = 0) : k = max m n := by
  apply le_antisymm
  · rcases hfg.reached with h | ⟨t, ht⟩
    · exact h ▸ le_max_of_le_left hf.nonneg
    have h1 := hf.le t
    have h2 := hg.le t
    have h3 : f t + g t = k := ht
    rcases hone t with h | h
    · exact le_max_of_le_right (by omega)
    · exact le_max_of_le_left (by omega)
  · apply max_le
    · rcases hf.reached with h | ⟨t, ht⟩
      · exact h ▸ hfg.nonneg
      have h1 := hfg.le t
      have h2 := hg0 t
      omega
    rcases hg.reached with h | ⟨t, ht⟩
    · exact h ▸ hfg.nonneg
    have h1 := hfg.le t
    have h2 := hf0 t
    omega

end Zoomies
