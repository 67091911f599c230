import Mathlib.Algebra.BigOperators.Group.List.Basic
import Mathlib.Data.List.Iterate
import Zoomies.Interleave
import Zoomies.CyclicCode

/-! Arithmetic in GF(256) (`internal/qr/qr.go`), modulo `x^8+x^4+x^3+x^2+1`, and the error correction
of a block: two of one length differ in more places than it has bytes. -/
namespace Zoomies.Qr
open List

section
abbrev Byte := BitVec 8

def nextPower (x : Nat) : Nat :=
  let x := x <<< 1
  if x &&& 0x100 ≠ 0 then x ^^^ 0x11D else x

def powers : List Nat := List.iterate nextPower 1 255

def gfExp : List Byte :=
  let exp := powers.map (BitVec.ofNat 8)
  exp ++ exp ++ exp.take 2

def gfLog : Nat → Byte :=
  writeAll (powers.zipIdx.map fun e => (e.1, BitVec.ofNat 8 e.2)) fun _ => 0

def gfMul (a b : Byte) : Byte :=
  if a = 0 ∨ b = 0 then 0 else gfExp.getD ((gfLog a.toNat).toNat + (gfLog b.toNat).toNat) 0

def timesX (a : Byte) : Byte := (a <<< 1) ^^^ (if a.msb then 0x1D else 0)

theorem timesX_zero : timesX 0 = 0 := by decide

theorem timesX_xor (a b : Byte) : timesX (a ^^^ b) = timesX a ^^^ timesX b := by
  rw [timesX, timesX, timesX, BitVec.shiftLeft_xor_distrib, BitVec.msb_xor]
  apply BitVec.eq_of_getLsbD_eq
  intro i hi
  cases a.msb <;> cases b.msb <;> simp <;> grind

theorem iterate_timesX_zero {n : Nat} : timesX^[n] 0 = 0 := Function.iterate_fixed timesX_zero n

theorem iterate_timesX_xor {n : Nat} (a b : Byte) :
    timesX^[n] (a ^^^ b) = timesX^[n] a ^^^ timesX^[n] b := by
  induction n generalizing a b with
  | zero => rfl
  | succ n ih =>
    rw [Function.iterate_succ_apply, Function.iterate_succ_apply, Function.iterate_succ_apply,
      timesX_xor, ih]

theorem timesX_eight (a : Byte) :
    timesX^[8] a = a ^^^ timesX^[2] a ^^^ timesX^[3] a ^^^ timesX^[4] a := by
  revert a
  decide +kernel

@[ext] structure GF256 where
  byte : Byte
  deriving DecidableEq

namespace GF256

instance : Zero GF256 := ⟨⟨0⟩⟩

instance : One GF256 := ⟨⟨1⟩⟩

instance : Add GF256 := ⟨fun a b => ⟨a.byte ^^^ b.byte⟩⟩

instance : Neg GF256 := ⟨fun a => a⟩

@[simp] theorem byte_zero : (0 : GF256).byte = 0 := rfl

@[simp] theorem byte_one : (1 : GF256).byte = 1 := rfl

variable (a b : GF256)

@[simp] theorem byte_add : (a + b).byte = a.byte ^^^ b.byte := rfl

instance : AddCommGroup GF256 where
  add_assoc a b c := GF256.ext (BitVec.xor_assoc _ _ _)
  zero_add a := GF256.ext BitVec.zero_xor
  add_zero a := GF256.ext BitVec.xor_zero
  neg_add_cancel a := GF256.ext BitVec.xor_self
  add_comm a b := GF256.ext (BitVec.xor_comm _ _)
  nsmul := nsmulRec
  zsmul := zsmulRec

theorem add_self : a + a = 0 := GF256.ext BitVec.xor_self

def shifted (i : Nat) (a : GF256) : GF256 := ⟨timesX^[i] a.byte⟩

theorem shifted_add {i : Nat} {a b : GF256} : shifted i (a + b) = shifted i a + shifted i b :=
  GF256.ext (iterate_timesX_xor a.byte b.byte)

theorem shifted_zero {i : Nat} : shifted i 0 = 0 := GF256.ext iterate_timesX_zero

theorem shifted_shifted (i j : Nat) (a : GF256) : shifted i (shifted j a) = shifted (i + j) a :=
  GF256.ext (Function.iterate_add_apply timesX i j a.byte).symm

instance : Mul GF256 :=
  ⟨fun a b => ((List.range 8).map fun i => if b.byte.getLsbD i then shifted i a else 0).sum⟩

theorem mul_def : a * b =
    ((List.range 8).map fun i => if b.byte.getLsbD i then shifted i a else 0).sum := rfl

theorem mul_add_right (c : GF256) : a * (b + c) = a * b + a * c := by
  rw [mul_def, mul_def, mul_def, ← sum_map_add]
  congr 1
  apply map_congr_left
  intro i _
  rw [byte_add, BitVec.getLsbD_xor]
  cases b.byte.getLsbD i <;> cases c.byte.getLsbD i <;> simp [add_self]

theorem add_mul_left (c : GF256) : (a + b) * c = a * c + b * c := by
  rw [mul_def, mul_def, mul_def, ← sum_map_add]
  congr 1
  apply map_congr_left
  intro i _
  split
  · exact shifted_add
  · exact (add_zero 0).symm

theorem mul_zero_right : a * 0 = 0 := by
  have h := mul_add_right a 0 0
  rw [add_zero] at h
  exact left_eq_add.mp h

theorem zero_mul_left : 0 * a = 0 := by
  have h := add_mul_left 0 0 a
  rw [add_zero] at h
  exact left_eq_add.mp h

theorem mul_eq_terms : a * b =
    (if b.byte.getLsbD 0 then shifted 0 a else 0) + (if b.byte.getLsbD 1 then shifted 1 a else 0) +
    (if b.byte.getLsbD 2 then shifted 2 a else 0) + (if b.byte.getLsbD 3 then shifted 3 a else 0) +
    (if b.byte.getLsbD 4 then shifted 4 a else 0) + (if b.byte.getLsbD 5 then shifted 5 a else 0) +
    (if b.byte.getLsbD 6 then shifted 6 a else 0) + (if b.byte.getLsbD 7 then shifted 7 a else 0) := by
  rw [mul_def]
  simp only [range_succ, range_zero, nil_append, map_append, map_cons,
    map_nil, sum_append, sum_cons, sum_nil, add_zero]

theorem mul_one_right : a * 1 = a := by
  rw [mul_eq_terms]
  simp
  rfl

theorem mul_reduction {a : GF256} : a * ⟨0x1D⟩ = shifted 8 a := by
  have hbits : (0x1D : Byte).getLsbD 0 = true ∧ (0x1D : Byte).getLsbD 1 = false ∧
      (0x1D : Byte).getLsbD 2 = true ∧ (0x1D : Byte).getLsbD 3 = true ∧
      (0x1D : Byte).getLsbD 4 = true ∧ (0x1D : Byte).getLsbD 5 = false ∧
      (0x1D : Byte).getLsbD 6 = false ∧ (0x1D : Byte).getLsbD 7 = false := by decide
  obtain ⟨h0, h1, h2, h3, h4, h5, h6, h7⟩ := hbits
  rw [mul_eq_terms]
  dsimp only
  rw [h0, h1, h2, h3, h4, h5, h6, h7]
  simp only [Bool.false_eq_true, ↓reduceIte, add_zero]
  exact GF256.ext (timesX_eight a.byte).symm

theorem mul_shiftLeft (b : Byte) :
    a * ⟨b <<< 1⟩ + (if b.msb then shifted 8 a else 0) = shifted 1 (a * ⟨b⟩) := by
  have hshift : ∀ i, shifted 1 (if b.getLsbD i then shifted i a else 0) =
      if b.getLsbD i then shifted (i + 1) a else 0 := by
    intro i
    split
    · rw [shifted_shifted, Nat.add_comm]
    · exact shifted_zero
  rw [mul_eq_terms, mul_eq_terms, shifted_add, shifted_add, shifted_add, shifted_add, shifted_add,
    shifted_add, shifted_add]
  dsimp only
  rw [hshift, hshift, hshift, hshift, hshift, hshift, hshift, hshift, BitVec.msb_eq_getLsbD_last]
  simp

theorem mul_timesX (b : Byte) : a * ⟨timesX b⟩ = shifted 1 (a * ⟨b⟩) := by
  have hsplit : (⟨timesX b⟩ : GF256) = ⟨b <<< 1⟩ + ⟨if b.msb then 0x1D else 0⟩ := rfl
  rw [hsplit, mul_add_right, ← mul_shiftLeft]
  congr 1
  split
  · exact mul_reduction
  · exact mul_zero_right a

theorem mul_power (n : Nat) : a * ⟨timesX^[n] 1⟩ = shifted n a := by
  induction n with
  | zero => exact mul_one_right a
  | succ n ih =>
    rw [Function.iterate_succ_apply', mul_timesX, ih, shifted_shifted, Nat.add_comm]

end GF256

theorem powers_eq : powers.map (BitVec.ofNat 8) = List.iterate timesX 1 255 := by decide +kernel

theorem testBit_foldl_set (l : List Nat) (m a : Nat) :
    (l.foldl (fun m x => m ||| 1 <<< x) m).testBit a = (m.testBit a || decide (a ∈ l)) := by
  induction l generalizing m with
  | nil => simp
  | cons x rest ih =>
    rw [foldl_cons, ih, Nat.testBit_or, Nat.one_shiftLeft, Nat.testBit_two_pow]
    by_cases hx : x = a
    · simp [hx]
    · simp [hx, Ne.symm hx]

theorem powers_perm : (List.range' 1 255).Perm powers := by
  have hmask : powers.foldl (fun m x => m ||| 1 <<< x) 0 = 2 ^ 256 - (1 + 1) := by decide +kernel
  have hsub : List.range' 1 255 ⊆ powers := by
    intro a ha
    rw [mem_range'_1] at ha
    have hbit := testBit_foldl_set powers 0 a
    have hone : (1 : Nat).testBit a = false := by
      apply Nat.testBit_lt_two_pow
      exact Nat.one_lt_two_pow (by omega)
    rw [hmask, Nat.testBit_two_pow_sub_succ (by decide), Nat.zero_testBit, Bool.false_or, hone,
      decide_eq_true (by omega), Bool.not_false, Bool.and_self] at hbit
    exact of_decide_eq_true hbit.symm
  have hlen : powers.length ≤ (List.range' 1 255).length := by
    rw [powers, length_iterate, length_range']
  exact (subperm_of_subset nodup_range' hsub).perm_of_length_le hlen

theorem power_eq {i : Nat} (hi : i < 255) :
    ∃ h : i < powers.length, BitVec.ofNat 8 powers[i] = timesX^[i] 1 := by
  have hlen : powers.length = 255 := length_iterate nextPower 1 255
  have hi' : i < powers.length := hlen ▸ hi
  refine ⟨hi', ?_⟩
  have hget : (powers.map (BitVec.ofNat 8))[i]? = some (BitVec.ofNat 8 powers[i]) := by
    rw [getElem?_map, getElem?_eq_getElem hi', Option.map_some]
  rw [powers_eq, getElem?_iterate timesX 1 255 i hi] at hget
  exact (Option.some.inj hget).symm

theorem power_log {a : Byte} (ha : a ≠ 0) :
    (gfLog a.toNat).toNat < 255 ∧ timesX^[(gfLog a.toNat).toNat] 1 = a := by
  have hpos : a.toNat ≠ 0 := fun h => ha (BitVec.eq_of_toNat_eq h)
  have hmem : a.toNat ∈ powers := by
    rw [← powers_perm.mem_iff, mem_range'_1]
    have hlt := a.isLt
    omega
  obtain ⟨i, hi, hget⟩ := getElem_of_mem hmem
  have hlen : powers.length = 255 := length_iterate nextPower 1 255
  have hlog : gfLog a.toNat = BitVec.ofNat 8 i := by
    have hkeys : (powers.zipIdx.map fun e => (e.1, BitVec.ofNat 8 e.2)).map Prod.fst = powers := by
      rw [map_map]
      exact zipIdx_map_fst 0 powers
    have hentry : (a.toNat, BitVec.ofNat 8 i) ∈
        powers.zipIdx.map fun e => (e.1, BitVec.ofNat 8 e.2) := by
      apply mem_map.mpr
      refine ⟨(a.toNat, i), ?_, rfl⟩
      rw [mk_mem_zipIdx_iff_getElem?, getElem?_eq_getElem hi, hget]
    refine writeAll_of_mem ?_ _ hentry
    rw [hkeys]
    exact powers_perm.nodup_iff.mp nodup_range'
  have hexp : (gfLog a.toNat).toNat = i := by
    rw [hlog, BitVec.toNat_ofNat]
    omega
  rw [hexp]
  refine ⟨hlen ▸ hi, ?_⟩
  obtain ⟨_, hpow⟩ := power_eq (hlen ▸ hi)
  rw [← hpow, hget, BitVec.ofNat_toNat, BitVec.setWidth_eq]

theorem iterate_period : timesX^[255] 1 = 1 := by decide +kernel

theorem gfExp_eq {i : Nat} (hi : i < 510) : gfExp.getD i 0 = timesX^[i] 1 := by
  have hlen : (List.iterate timesX 1 255).length = 255 := length_iterate timesX 1 255
  have hlow : ∀ j < 255, (List.iterate timesX 1 255)[j]? = some (timesX^[j] 1) :=
    fun j hj => getElem?_iterate timesX 1 255 j hj
  rw [gfExp, powers_eq, getD_eq_getElem?_getD]
  by_cases h : i < 255
  · rw [append_assoc, getElem?_append_left (hlen.symm ▸ h), hlow i h, Option.getD_some]
  have hper : timesX^[i] 1 = timesX^[i - 255] 1 := by
    conv_lhs => rw [show i = i - 255 + 255 by omega, Function.iterate_add_apply, iterate_period]
  rw [getElem?_append_left (by rw [length_append, hlen]; exact hi),
    getElem?_append_right (by omega), hlen, hlow (i - 255) (by omega), Option.getD_some, hper]

theorem gfMul_eq {a b : Byte} : gfMul a b = ((⟨a⟩ : GF256) * ⟨b⟩).byte := by
  rw [gfMul]
  split
  · rename_i h
    rcases h with rfl | rfl
    · exact (congrArg GF256.byte (GF256.zero_mul_left ⟨b⟩)).symm
    · exact (congrArg GF256.byte (GF256.mul_zero_right ⟨a⟩)).symm
  rename_i h
  rw [not_or] at h
  obtain ⟨ha, hpa⟩ := power_log h.1
  obtain ⟨hb, hpb⟩ := power_log h.2
  rw [gfExp_eq (by omega), Nat.add_comm, Function.iterate_add_apply, hpa]
  have hmul := GF256.mul_power ⟨a⟩ (gfLog b.toNat).toNat
  rw [hpb] at hmul
  rw [hmul]
  rfl

theorem gfMul_comm (a b : Byte) : gfMul a b = gfMul b a := by
  rw [gfMul, gfMul, Nat.add_comm]
  exact if_congr or_comm rfl rfl

namespace GF256

theorem mul_comm_all (a b : GF256) : a * b = b * a := by
  apply GF256.ext
  rw [← gfMul_eq, ← gfMul_eq, gfMul_comm]

theorem eq_zero_or_power (a : GF256) : a = 0 ∨ ∃ n, a = ⟨timesX^[n] 1⟩ := by
  by_cases ha : a.byte = 0
  · exact .inl (GF256.ext ha)
  · exact .inr ⟨_, GF256.ext (power_log ha).2.symm⟩

theorem mul_assoc_all (a b c : GF256) : a * b * c = a * (b * c) := by
  rcases eq_zero_or_power b with rfl | ⟨m, rfl⟩
  · rw [mul_zero_right, zero_mul_left, mul_zero_right]
  rcases eq_zero_or_power c with rfl | ⟨n, rfl⟩
  · rw [mul_zero_right, mul_zero_right, mul_zero_right]
  have hprod : shifted n ⟨timesX^[m] 1⟩ = ⟨timesX^[n + m] 1⟩ :=
    GF256.ext (Function.iterate_add_apply timesX n m 1).symm
  rw [mul_power, mul_power, mul_power, hprod, mul_power, shifted_shifted]

instance : CommRing GF256 where
  mul_assoc := mul_assoc_all
  one_mul a := (mul_comm_all 1 a).trans (mul_one_right a)
  mul_one := mul_one_right
  left_distrib := mul_add_right
  right_distrib := add_mul_left
  zero_mul := zero_mul_left
  mul_zero := mul_zero_right
  mul_comm := mul_comm_all
  zsmul := zsmulRec
  neg_add_cancel := neg_add_cancel

def x : GF256 := ⟨2⟩

theorem x_pow (n : Nat) : x ^ n = ⟨timesX^[n] 1⟩ := by
  induction n with
  | zero => rfl
  | succ n ih =>
    have hx : x = ⟨timesX 1⟩ := by decide
    have hone : (⟨1⟩ : GF256) = 1 := rfl
    rw [pow_succ, ih, hx, mul_timesX, hone, mul_one]
    exact GF256.ext (Function.iterate_succ_apply' timesX n 1).symm

end GF256

def generator (n : Nat) : List Byte :=
  (List.range n).foldl (fun g i =>
    List.zipWith (fun x y => x ^^^ gfMul y (gfExp.getD i 0)) (g ++ [0]) (0 :: g)) [1]

def reduceWith (g rem : List Byte) (d : Byte) : List Byte :=
  let factor := d ^^^ rem.headD 0
  List.zipWith (fun r c => r ^^^ gfMul c factor) (rem.tail ++ [0]) g.tail

def reedSolomon (data : List Byte) (n : Nat) : List Byte :=
  data.foldl (reduceWith (generator n)) (List.replicate n 0)

def codeRoots (n : Nat) : List GF256 := (List.range n).map fun i => GF256.x ^ i

def isCodeword (n : Nat) (block : List Byte) : Bool :=
  (codeRoots n).all fun r => polyAt r (block.map GF256.mk) == 0

theorem root_eq {i : Nat} (hi : i < 510) : (⟨gfExp.getD i 0⟩ : GF256) = GF256.x ^ i := by
  rw [GF256.x_pow, gfExp_eq hi]

theorem mk_gfMul (a b : Byte) : (⟨gfMul a b⟩ : GF256) = ⟨a⟩ * ⟨b⟩ := GF256.ext gfMul_eq

theorem map_zipWith_xor {f : Byte → Byte} {k : GF256} (hf : ∀ c, (⟨f c⟩ : GF256) = ⟨c⟩ * k)
    (a b : List Byte) : (List.zipWith (fun x y => x ^^^ f y) a b).map GF256.mk =
      List.zipWith (fun x y => x + y * k) (a.map GF256.mk) (b.map GF256.mk) := by
  rw [map_zipWith, zipWith_map]
  congr 1
  funext x y
  rw [← hf]
  rfl

theorem generator_eq {n : Nat} (hn : n < 510) :
    (generator n).map GF256.mk = withRoots (codeRoots n) := by
  rw [generator, withRoots, codeRoots, foldl_map]
  induction n with
  | zero => rfl
  | succ n ih =>
    have hroot : ∀ c, (⟨gfMul c (gfExp.getD n 0)⟩ : GF256) = ⟨c⟩ * GF256.x ^ n := by
      intro c
      rw [mk_gfMul, root_eq (by omega)]
    rw [range_succ, foldl_append, foldl_append, foldl_cons, foldl_nil,
      foldl_cons, foldl_nil, ← ih (by omega), map_zipWith_xor hroot,
      timesLinear, map_append, map_cons, map_cons, map_nil]
    rfl

theorem reduceWith_eq (g rem : List Byte) (d : Byte) : (reduceWith g rem d).map GF256.mk =
      divideStep (g.map GF256.mk) (rem.map GF256.mk) ⟨d⟩ := by
  have hhead : (⟨d ^^^ rem.headD 0⟩ : GF256) = ⟨d⟩ + (rem.map GF256.mk).headD 0 := by
    cases rem <;> rfl
  rw [reduceWith, divideStep, map_zipWith_xor fun c => mk_gfMul c _, hhead, map_append,
    map_tail, map_tail, map_cons, map_nil]
  rfl

theorem reedSolomon_eq (data : List Byte) {n : Nat} (hn : n < 510) :
    (reedSolomon data n).map GF256.mk =
      remainder (withRoots (codeRoots n)) n (data.map GF256.mk) := by
  have hzeros : (List.replicate n (0 : Byte)).map GF256.mk = List.replicate n 0 :=
    map_replicate
  rw [reedSolomon, remainder, ← generator_eq hn, ← hzeros, foldl_map]
  generalize List.replicate n (0 : Byte) = rem
  induction data generalizing rem with
  | nil => rfl
  | cons d rest ih => rw [foldl_cons, foldl_cons, ih, reduceWith_eq]

theorem length_codeRoots (n : Nat) : (codeRoots n).length = n := by
  rw [codeRoots, length_map, length_range]

theorem codeRoots_ne_nil {n : Nat} (hpos : 0 < n) : codeRoots n ≠ [] := by
  intro h
  have hl := length_codeRoots n
  rw [h, length_nil] at hl
  omega

section
variable (data : List Byte) {n : Nat} (hn : n < 510) (hpos : 0 < n)
include hn hpos

theorem length_reedSolomon : (reedSolomon data n).length = n := by
  have hl := congrArg List.length (reedSolomon_eq data hn)
  have hr := length_remainder_withRoots (data.map GF256.mk) (codeRoots_ne_nil hpos)
  rw [length_codeRoots] at hr
  rwa [length_map, hr] at hl

theorem isCodeword_reedSolomon : isCodeword n (data ++ reedSolomon data n) = true := by
  rw [isCodeword, all_eq_true]
  intro r hr
  have hword := polyAt_codeword GF256.add_self (data.map GF256.mk) (codeRoots_ne_nil hpos) hr
  rw [length_codeRoots] at hword
  rw [map_append, reedSolomon_eq data hn, beq_iff_eq, hword]

end

end

namespace GF256

theorem x_period : x ^ 255 = 1 := by
  rw [x_pow, iterate_period]
  rfl

theorem exists_inverse {a : GF256} (ha : a ≠ 0) : ∃ b, a * b = 1 := by
  obtain ⟨n, rfl⟩ := (eq_zero_or_power a).resolve_left ha
  refine ⟨x ^ (255 * n - n), ?_⟩
  rw [← x_pow, ← pow_add, show n + (255 * n - n) = 255 * n by omega, pow_mul, x_period, one_pow]

instance : Nontrivial GF256 := ⟨0, 1, by decide⟩

theorem isField : IsField GF256 := ⟨exists_pair_ne GF256, mul_comm, exists_inverse⟩

instance : IsDomain GF256 := isField.isDomain

theorem x_pow_inj {i j : Nat} (hi : i < 255) (hj : j < 255) (h : x ^ i = x ^ j) : i = j := by
  obtain ⟨hi, hpi⟩ := power_eq hi
  obtain ⟨hj, hpj⟩ := power_eq hj
  rw [x_pow, x_pow, ← hpi, ← hpj] at h
  have hbyte : ∀ a ∈ powers, a < 256 := fun a ha => by
    rw [← powers_perm.mem_iff, mem_range'_1] at ha
    omega
  have hsame := congrArg BitVec.toNat (GF256.mk.inj h)
  rw [BitVec.toNat_ofNat, BitVec.toNat_ofNat, Nat.mod_eq_of_lt (hbyte _ (getElem_mem hi)),
    Nat.mod_eq_of_lt (hbyte _ (getElem_mem hj))] at hsame
  exact (powers_perm.nodup_iff.mp nodup_range').getElem_inj_iff.mp hsame

theorem x_reduction : x ^ 8 = x ^ 4 + x ^ 3 + x ^ 2 + 1 := by decide +kernel

theorem eq_terms (a : GF256) :
    a = ((List.range 8).map fun i => if a.byte.getLsbD i then x ^ i else 0).sum := by
  have hone := mul_def 1 a
  rw [one_mul] at hone
  refine hone.trans (congrArg List.sum (map_congr_left fun i _ => ?_))
  rw [x_pow]
  rfl

end GF256

def differAt (a b : List Byte) : Finset Nat := (Finset.range a.length).filter fun j => a[j]? ≠ b[j]?

theorem polyAt_of_isCodeword {n i : Nat} {block : List Byte} (h : isCodeword n block = true)
    (hi : i < n) : polyAt (GF256.x ^ i) (block.map GF256.mk) = 0 :=
  beq_iff_eq.mp (all_eq_true.mp h _ (mem_map.mpr ⟨i, mem_range.mpr hi, rfl⟩))

/-- Two codewords that differ in few places are one. -/
theorem eq_of_few_differ {a b : List Byte} {n : Nat} (hlen : a.length = b.length)
    (hshort : a.length ≤ 255) (ha : isCodeword n a = true) (hb : isCodeword n b = true)
    (hfew : (differAt a b).card ≤ n) : a = b := by
  let w := List.zipWith (fun x y => x + id y) (a.map GF256.mk) (b.map GF256.mk)
  have hw : w.length = a.length := by simp [w, hlen]
  have hget {j : Nat} (hj : j < a.length) : w.getD j 0 = 0 ↔ a[j]? = b[j]? := by
    have hj' : j < b.length := hlen ▸ hj
    rw [getD_eq_getElem?_getD, getElem?_eq_getElem (hw ▸ hj), Option.getD_some,
      getElem?_eq_getElem hj, getElem?_eq_getElem hj', Option.some_inj]
    simp only [w, getElem_zipWith, getElem_map, id]
    rw [add_eq_zero_iff_eq_neg]
    exact GF256.mk.injEq _ _ ▸ Iff.rfl
  have hzero : ∀ j ∈ differAt a b, w.getD j 0 = 0 := by
    refine eq_zero_of_few (x := GF256.x) ?_ (fun i hi => ?_) ?_ ?_ hfew
    · exact fun i hi j hj => GF256.x_pow_inj (by omega) (by omega)
    · have hadd := polyAt_zipWith (GF256.x ^ i) id (k := 1) (fun c => (mul_one c).symm)
        (b.map GF256.mk) (a := a.map GF256.mk) (by simp [hlen])
      rw [hadd, polyAt_of_isCodeword ha hi, polyAt_of_isCodeword hb hi, zero_mul, add_zero]
    · exact hw.symm ▸ Finset.filter_subset _ _
    intro j hj hsame
    rw [hw] at hj
    refine (hget (Finset.mem_range.mp hj)).mpr (not_not.mp fun hne => hsame ?_)
    exact Finset.mem_filter.mpr ⟨hj, hne⟩
  refine ext_getElem? fun j => ?_
  by_cases hj : j < a.length
  · refine (hget hj).mp ?_
    by_contra hne
    refine hne (hzero j (Finset.mem_filter.mpr ⟨Finset.mem_range.mpr hj, fun hsame => ?_⟩))
    exact hne ((hget hj).mpr hsame)
  · rw [getElem?_eq_none (by omega), getElem?_eq_none (by omega)]

/-- The bytes multiply as in the field of `x^8+x^4+x^3+x^2+1`, and the blocks are a code of maximum
distance over it. -/
theorem reedSolomon_maximum_distance :
    ((∀ a b : Byte, (⟨gfMul a b⟩ : GF256) = ⟨a⟩ * ⟨b⟩) ∧ IsField GF256 ∧
      (∀ a b : Byte, (⟨a ^^^ b⟩ : GF256) = ⟨a⟩ + ⟨b⟩) ∧
      GF256.x ^ 8 = GF256.x ^ 4 + GF256.x ^ 3 + GF256.x ^ 2 + 1 ∧ ∀ a : GF256, a =
        ((List.range 8).map fun i => if a.byte.getLsbD i then GF256.x ^ i else 0).sum) ∧
    ∀ (n : Nat) (data data' : List Byte), 1 ≤ n → n ≤ 254 → 1 ≤ data.length →
      data.length + n ≤ 255 →
      (∀ i < n, polyAt ⟨gfExp.getD i 0⟩ ((data ++ reedSolomon data n).map GF256.mk) = 0) ∧
      (data'.length = data.length → data' ≠ data →
        n + 1 ≤ (differAt (data ++ reedSolomon data n) (data' ++ reedSolomon data' n)).card) := by
  refine ⟨⟨mk_gfMul, GF256.isField, fun _ _ => rfl, GF256.x_reduction, GF256.eq_terms⟩, ?_⟩
  intro n data data' hpos hn _ hshort
  have hword (d : List Byte) := isCodeword_reedSolomon d (by omega) hpos
  refine ⟨fun i hi => ?_, fun hlen hne => ?_⟩
  · rw [root_eq (by omega)]
    exact polyAt_of_isCodeword (hword data) hi
  by_contra hfew
  have hlength (d : List Byte) : (d ++ reedSolomon d n).length = d.length + n := by
    rw [length_append, length_reedSolomon d (by omega) hpos]
  have hsame := eq_of_few_differ ((hlength data).trans (hlen ▸ (hlength data').symm))
    ((hlength data).trans_le hshort) (hword data) (hword data') (by omega)
  exact hne (append_inj hsame hlen.symm).1.symm

theorem reedSolomon_maximum_distance_pair :
    3 ≤ (differAt ([1] ++ reedSolomon [1] 2) ([2] ++ reedSolomon [2] 2)).card :=
  (reedSolomon_maximum_distance.2 2 [1] [2] (by decide) (by decide) (by decide) (by decide)).2 rfl
    (by decide)

end Zoomies.Qr
