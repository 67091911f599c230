import Mathlib.Data.List.Induction
import Mathlib.LinearAlgebra.Vandermonde
import Mathlib.Tactic.LinearCombination
import Mathlib.Tactic.Ring

/-! Codes with given roots, over fields in which sums are their own negatives. Polynomials are lists
of coefficients, the highest first. -/
namespace Zoomies
open List

section
variable {R : Type} [CommRing R] (p : R)

def polyAt (c : List R) : R := c.foldl (fun acc d => acc * p + d) 0

theorem polyAt_nil : polyAt p [] = 0 := rfl

theorem polyAt_foldl (c : List R) (a : R) :
    c.foldl (fun acc d => acc * p + d) a = a * p ^ c.length + polyAt p c := by
  induction c generalizing a with
  | nil => rw [foldl_nil, length_nil, pow_zero, mul_one, polyAt_nil, add_zero]
  | cons d rest ih =>
    rw [polyAt, foldl_cons, foldl_cons, ih, ih (0 * p + d), length_cons]
    ring

theorem polyAt_append (a b : List R) :
    polyAt p (a ++ b) = polyAt p a * p ^ b.length + polyAt p b := by
  rw [polyAt, foldl_append, polyAt_foldl]
  rfl

theorem polyAt_cons {d : R} (c : List R) : polyAt p (d :: c) = d * p ^ c.length + polyAt p c := by
  rw [polyAt, foldl_cons, polyAt_foldl]
  ring

theorem polyAt_replicate_zero (n : Nat) : polyAt p (List.replicate n (0 : R)) = 0 := by
  induction n with
  | zero => rfl
  | succ n ih => rw [replicate_succ, polyAt_cons, ih, zero_mul, zero_add]

theorem polyAt_zipWith (f : R → R) {k : R} (hf : ∀ c, f c = c * k) {a : List R} (b : List R)
    (h : a.length = b.length) :
    polyAt p (List.zipWith (fun x y => x + f y) a b) = polyAt p a + polyAt p b * k := by
  induction a generalizing b with
  | nil =>
    have hb : b = [] := eq_nil_of_length_eq_zero h.symm
    rw [hb, zipWith_nil_left, polyAt_nil, zero_mul, add_zero]
  | cons x a ih =>
    cases b with
    | nil => cases h
    | cons y b =>
      have hl : a.length = b.length := Nat.succ.inj h
      rw [zipWith_cons_cons, polyAt_cons, polyAt_cons, polyAt_cons, ih b hl,
        length_zipWith, hl, Nat.min_self, hf]
      ring

variable (roots g : List R) (r : R)

def timesLinear : List R :=
  List.zipWith (fun x y => x + y * r) (g ++ [0]) (0 :: g)

theorem length_timesLinear : (timesLinear g r).length = g.length + 1 := by
  rw [timesLinear, length_zipWith, length_append, length_cons, length_cons,
    length_nil, Nat.min_self]

theorem polyAt_timesLinear : polyAt p (timesLinear g r) = polyAt p g * (p + r) := by
  have hlen : (g ++ [0]).length = (0 :: g).length := by
    rw [length_append, length_cons, length_cons, length_nil]
  rw [timesLinear, polyAt_zipWith p (fun y => y * r) (fun _ => rfl) _ hlen, polyAt_append,
    polyAt_cons, polyAt_cons, polyAt_nil, length_cons, length_nil]
  ring

def withRoots : List R := roots.foldl timesLinear [1]

theorem foldl_timesLinear_head : ∃ tail, roots.foldl timesLinear (1 :: g) = 1 :: tail ∧
      tail.length = g.length + roots.length := by
  induction roots generalizing g with
  | nil => exact ⟨g, rfl, rfl⟩
  | cons r rest ih =>
    obtain ⟨tail, htail, hlen⟩ : ∃ tail, timesLinear (1 :: g) r = 1 :: tail ∧
        tail.length = g.length + 1 := by
      have hl := length_timesLinear (1 :: g) r
      rw [timesLinear, cons_append, zipWith_cons_cons, zero_mul, add_zero] at hl ⊢
      exact ⟨_, rfl, Nat.succ.inj hl⟩
    obtain ⟨tail', htail', hlen'⟩ := ih tail
    refine ⟨tail', ?_, ?_⟩
    · rw [foldl_cons, htail, htail']
    · rw [hlen', hlen, length_cons]
      omega

theorem withRoots_cons : ∃ tail, withRoots roots = 1 :: tail ∧ tail.length = roots.length := by
  obtain ⟨tail, htail, hlen⟩ := foldl_timesLinear_head roots []
  exact ⟨tail, htail, by rw [hlen, length_nil, Nat.zero_add]⟩

theorem polyAt_eq_sum (w : List R) :
    polyAt p w = ∑ j ∈ Finset.range w.length, w.getD j 0 * p ^ (w.length - 1 - j) := by
  induction w with
  | nil => rfl
  | cons c w ih =>
    rw [polyAt_cons, ih, length_cons, Finset.sum_range_succ', add_comm]
    congr 1
    refine Finset.sum_congr rfl fun j _ => ?_
    rw [getD_cons_succ, Nat.add_sub_cancel, Nat.sub_sub, Nat.add_comm 1 j]

/-- A word with no more non-zero places than it has roots among the first powers of `x` is zero. -/
theorem eq_zero_of_few [IsDomain R] {x : R} {w : List R} {n : Nat}
    (hx : ∀ i < w.length, ∀ j < w.length, x ^ i = x ^ j → i = j)
    (hroots : ∀ i < n, polyAt (x ^ i) w = 0) {s : Finset Nat} (hs : s ⊆ Finset.range w.length)
    (hzero : ∀ j ∈ Finset.range w.length, j ∉ s → w.getD j 0 = 0) (hfew : s.card ≤ n) :
    ∀ j ∈ s, w.getD j 0 = 0 := by
  have hlt (i : Fin s.card) : (s.equivFin.symm i : Nat) < w.length :=
    Finset.mem_range.mp (hs (s.equivFin.symm i).2)
  have hvalues : (fun i => w.getD (s.equivFin.symm i) 0) = 0 := by
    apply Matrix.eq_zero_of_forall_pow_sum_mul_pow_eq_zero
      (f := fun i => x ^ (w.length - 1 - (s.equivFin.symm i : Nat)))
    · intro i j hij
      have hi := hlt i
      have hj := hlt j
      have he := hx _ (by omega) _ (by omega) hij
      exact s.equivFin.symm.injective (Subtype.ext (by omega))
    intro i
    have hroot := hroots i (i.isLt.trans_le hfew)
    rw [polyAt_eq_sum, ← Finset.sum_subset hs fun j hj hj' => by rw [hzero j hj hj', zero_mul],
      ← Finset.sum_coe_sort, ← s.equivFin.symm.sum_comp] at hroot
    refine Eq.trans (Finset.sum_congr rfl fun j _ => ?_) hroot
    rw [← pow_mul, ← pow_mul, Nat.mul_comm]
  intro j hj
  have hj' := congrFun hvalues (s.equivFin ⟨j, hj⟩)
  rwa [Equiv.symm_apply_apply] at hj'

end

section
variable {R : Type} [CommRing R] (h2 : ∀ r : R, r + r = 0)
include h2

variable {roots tail : List R}

theorem polyAt_withRoots {r : R} (h : r ∈ roots) : polyAt r (withRoots roots) = 0 := by
  have hzero : ∀ (l : List R) (g : List R), polyAt r g = 0 → polyAt r (l.foldl timesLinear g) = 0 := by
    intro l
    induction l with
    | nil => exact fun g hg => hg
    | cons s rest ih =>
      intro g hg
      exact ih _ (by rw [polyAt_timesLinear, hg, zero_mul])
  obtain ⟨before, after, rfl⟩ := append_of_mem h
  rw [withRoots, foldl_append, foldl_cons]
  exact hzero after _ (by rw [polyAt_timesLinear, h2, mul_zero])

omit h2 in
def divideStep (g rem : List R) (d : R) : List R :=
  List.zipWith (fun r c => r + c * (d + rem.headD 0)) (rem.tail ++ [0]) g.tail

omit h2 in
theorem length_divideStep {rem : List R} {d : R} (h : tail.length = rem.length)
    (hpos : rem ≠ []) : (divideStep (1 :: tail) rem d).length = rem.length := by
  obtain ⟨r, rest, rfl⟩ := exists_cons_of_ne_nil hpos
  rw [divideStep, length_zipWith, tail_cons, tail_cons, length_append, h]
  exact Nat.min_self _

theorem polyAt_divideStep {p : R} {rem : List R} {d : R} (hroot : polyAt p (1 :: tail) = 0)
    (hlen : tail.length = rem.length) (hpos : rem ≠ []) :
    polyAt p (divideStep (1 :: tail) rem d) = polyAt p rem * p + d * p ^ rem.length := by
  obtain ⟨r, rest, rfl⟩ := exists_cons_of_ne_nil hpos
  have hl : (rest ++ [(0 : R)]).length = tail.length := by
    rw [hlen, length_append, length_cons, length_cons, length_nil]
  rw [polyAt_cons, one_mul] at hroot
  rw [divideStep, tail_cons, tail_cons, headD_cons,
    polyAt_zipWith p (fun c => c * (d + r)) (fun _ => rfl) _ hl, polyAt_append,
    polyAt_cons p, ← hlen]
  have hrest : rest.length + 1 = tail.length := by rw [hlen, length_cons]
  have hpow : p ^ tail.length = p ^ rest.length * p := by rw [← hrest, pow_succ]
  have hx := h2 ((d + r) * p ^ tail.length)
  rw [hpow] at hroot hx ⊢
  rw [polyAt_cons, polyAt_nil, length_cons, length_nil]
  linear_combination (d + r) * hroot - hx

omit h2 in
def remainder (g : List R) (n : Nat) (data : List R) : List R :=
  data.foldl (divideStep g) (List.replicate n 0)

omit h2 in
theorem length_remainder (data : List R) (hpos : tail ≠ []) :
    (remainder (1 :: tail) tail.length data).length = tail.length := by
  have hsteps : ∀ rem : List R, rem.length = tail.length →
      (data.foldl (divideStep (1 :: tail)) rem).length = tail.length := by
    induction data with
    | nil => exact fun rem h => h
    | cons d rest ih =>
      intro rem h
      have hne : rem ≠ [] := by
        intro he
        rw [he, length_nil] at h
        exact hpos (eq_nil_of_length_eq_zero h.symm)
      exact ih _ ((length_divideStep h.symm hne).trans h)
  exact hsteps _ length_replicate

theorem polyAt_remainder {p : R} {data : List R} (hroot : polyAt p (1 :: tail) = 0)
    (hpos : tail ≠ []) :
    polyAt p (remainder (1 :: tail) tail.length data) = polyAt p data * p ^ tail.length := by
  induction data using List.reverseRecOn with
  | nil => rw [remainder, foldl_nil, polyAt_replicate_zero, polyAt_nil, zero_mul]
  | append_singleton data d ih =>
    have hlen := length_remainder data hpos
    have hne : remainder (1 :: tail) tail.length data ≠ [] := by
      intro h
      rw [h, length_nil] at hlen
      exact hpos (eq_nil_of_length_eq_zero hlen.symm)
    have hstep : remainder (1 :: tail) tail.length (data ++ [d]) =
        divideStep (1 :: tail) (remainder (1 :: tail) tail.length data) d := by
      rw [remainder, foldl_append]
      rfl
    rw [hstep, polyAt_divideStep h2 hroot hlen.symm hne, ih, hlen, polyAt_append,
      polyAt_cons, polyAt_nil, length_cons, length_nil]
    ring

omit h2 in
theorem withRoots_tail (hpos : roots ≠ []) :
    ∃ tail, withRoots roots = 1 :: tail ∧ tail.length = roots.length ∧ tail ≠ [] := by
  obtain ⟨tail, htail, hlen⟩ := withRoots_cons roots
  refine ⟨tail, htail, hlen, ?_⟩
  intro h
  rw [h, length_nil] at hlen
  exact hpos (eq_nil_of_length_eq_zero hlen.symm)

omit h2 in
theorem length_remainder_withRoots (data : List R) (hpos : roots ≠ []) :
    (remainder (withRoots roots) roots.length data).length = roots.length := by
  obtain ⟨tail, htail, hlen, hne⟩ := withRoots_tail hpos
  rw [htail, ← hlen, length_remainder data hne]

theorem polyAt_codeword (data : List R) (hpos : roots ≠ []) {r : R} (hr : r ∈ roots) :
    polyAt r (data ++ remainder (withRoots roots) roots.length data) = 0 := by
  obtain ⟨tail, htail, hlen, hne⟩ := withRoots_tail hpos
  have hroot := polyAt_withRoots h2 hr
  rw [htail] at hroot
  rw [htail, ← hlen, polyAt_append, length_remainder data hne, polyAt_remainder h2 hroot hne]
  exact h2 _

end
end Zoomies
