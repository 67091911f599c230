import Mathlib.Algebra.GroupWithZero.Nat
import Mathlib.Data.List.Induction
import Mathlib.Data.List.Basic

/-! Numbers and bytes as bits, and numbers as bytes, the highest first. -/
namespace Zoomies
open List

def bigEndian : Nat → Nat → List UInt8
  | 0, _ => []
  | width + 1, n => bigEndian width (n / 256) ++ [UInt8.ofNat n]

def ofBigEndian (l : List UInt8) : Nat := l.foldl (fun n b => n * 256 + b.toNat) 0

@[simp] theorem length_bigEndian {width : Nat} (n : Nat) : (bigEndian width n).length = width := by
  induction width generalizing n with
  | zero => rfl
  | succ width ih => rw [bigEndian, List.length_append, ih, List.length_singleton]

theorem ofBigEndian_concat (l : List UInt8) (b : UInt8) :
    ofBigEndian (l ++ [b]) = ofBigEndian l * 256 + b.toNat :=
  List.foldl_append

theorem ofBigEndian_bigEndian (width n : Nat) :
    ofBigEndian (bigEndian width n) = n % 256 ^ width := by
  induction width generalizing n with
  | zero => exact (Nat.mod_one n).symm
  | succ width ih =>
    calc
      ofBigEndian (bigEndian (width + 1) n) = n / 256 % 256 ^ width * 256 + n % 256 := by
        rw [bigEndian, ofBigEndian_concat, ih, UInt8.toNat_ofNat']
      _ = n % 256 + 256 * (n / 256 % 256 ^ width) := by omega
      _ = n % (256 * 256 ^ width) := Nat.mod_mul.symm
      _ = n % 256 ^ (width + 1) := by rw [Nat.pow_succ, Nat.mul_comm]

theorem bigEndian_ofBigEndian (l : List UInt8) : bigEndian l.length (ofBigEndian l) = l := by
  induction l using List.reverseRecOn with
  | nil => rfl
  | append_singleton l b ih =>
    have hb : b.toNat < 256 := b.toNat_lt
    have hdiv : (ofBigEndian l * 256 + b.toNat) / 256 = ofBigEndian l := by omega
    have hlast : UInt8.ofNat (ofBigEndian l * 256 + b.toNat) = b := by
      apply UInt8.toNat_inj.mp
      rw [UInt8.toNat_ofNat']
      omega
    rw [ofBigEndian_concat, List.length_append, List.length_singleton, bigEndian, hdiv, ih, hlast]

theorem bigEndian_inj {width m n : Nat} (hm : m < 256 ^ width) (hn : n < 256 ^ width)
    (h : bigEndian width m = bigEndian width n) : m = n := by
  have hread := congrArg ofBigEndian h
  rw [ofBigEndian_bigEndian, ofBigEndian_bigEndian, Nat.mod_eq_of_lt hm,
    Nat.mod_eq_of_lt hn] at hread
  exact hread

def numberBits (v n : Nat) : List Bool := (List.range n).map fun i => v.testBit (n - 1 - i)

variable (l : List Bool) (bs : List (BitVec 8))

def bitsNumber : Nat := l.foldl (fun acc b => 2 * acc + b.toNat) 0

@[simp] theorem length_numberBits {v n : Nat} : (numberBits v n).length = n := by
  rw [numberBits, length_map, length_range]

theorem numberBits_succ (v n : Nat) :
    numberBits v (n + 1) = numberBits (v / 2) n ++ [v.testBit 0] := by
  rw [numberBits, range_succ, map_append, numberBits]
  congr 1
  · apply map_congr_left
    intro i hi
    have hlt := mem_range.mp hi
    rw [← Nat.testBit_add_one, show n - 1 - i + 1 = n + 1 - 1 - i by omega]
  · rw [map_cons, map_nil, Nat.add_sub_cancel, Nat.sub_self]

theorem bitsNumber_snoc (b : Bool) : bitsNumber (l ++ [b]) = 2 * bitsNumber l + b.toNat := by
  rw [bitsNumber, foldl_append]
  rfl

theorem bitsNumber_numberBits (v n : Nat) : bitsNumber (numberBits v n) = v % 2 ^ n := by
  induction n generalizing v with
  | zero => rw [Nat.pow_zero, Nat.mod_one]; rfl
  | succ n ih =>
    have hbit : (v.testBit 0).toNat = v % 2 := Nat.toNat_testBit v 0 |>.trans (by simp)
    rw [numberBits_succ, bitsNumber_snoc, ih, hbit, Nat.pow_succ, Nat.mul_comm (2 ^ n) 2,
      Nat.mod_mul]
    omega

theorem bitsNumber_lt : bitsNumber l < 2 ^ l.length := by
  induction l using List.reverseRecOn with
  | nil => exact Nat.one_pos
  | append_singleton l b ih =>
    have hb := Bool.toNat_le b
    rw [bitsNumber_snoc, length_append, length_singleton, Nat.pow_succ]
    omega

theorem numberBits_bitsNumber : numberBits (bitsNumber l) l.length = l := by
  induction l using List.reverseRecOn with
  | nil => rfl
  | append_singleton l b ih =>
    have hb := Bool.toNat_le b
    have hhalf : (2 * bitsNumber l + b.toNat) / 2 = bitsNumber l := by omega
    have hlast : (2 * bitsNumber l + b.toNat).testBit 0 = b := by
      cases b with
      | false => simp
      | true => simp [Nat.add_mod]
    rw [length_append, length_singleton, numberBits_succ, bitsNumber_snoc, hhalf, hlast, ih]

abbrev bytesBits : List Bool := bs.flatMap fun b => numberBits b.toNat 8

theorem length_bytesBits {bs : List (BitVec 8)} : (bytesBits bs).length = 8 * bs.length := by
  induction bs with
  | nil => rfl
  | cons b rest ih =>
    rw [bytesBits, flatMap_cons, length_append, length_numberBits, length_cons, ih]
    omega

def bitsBytes : List Bool → List (BitVec 8)
  | b7 :: b6 :: b5 :: b4 :: b3 :: b2 :: b1 :: b0 :: rest =>
    BitVec.ofNat 8 (bitsNumber [b7, b6, b5, b4, b3, b2, b1, b0]) :: bitsBytes rest
  | _ => []

theorem bitsBytes_append (rest : List Bool) :
    bitsBytes (bytesBits bs ++ rest) = bs ++ bitsBytes rest := by
  induction bs with
  | nil => rfl
  | cons b bs ih =>
    have hbyte : BitVec.ofNat 8 (bitsNumber (numberBits b.toNat 8)) = b := by
      rw [bitsNumber_numberBits, Nat.mod_eq_of_lt b.isLt, BitVec.ofNat_toNat, BitVec.setWidth_eq]
    rw [bytesBits, flatMap_cons, append_assoc, cons_append, ← ih]
    conv_rhs => rw [← hbyte]
    rfl

theorem exists_bytesBits {n : Nat} (l : List Bool) (h : l.length = 8 * n) :
    ∃ bs, bytesBits bs = l ∧ bs.length = n := by
  induction n generalizing l with
  | zero => exact ⟨[], (eq_nil_of_length_eq_zero h).symm, rfl⟩
  | succ n ih =>
    have hfirst : (l.take 8).length = 8 := by
      rw [length_take]
      omega
    obtain ⟨bs, hbs, hlen⟩ := ih (l.drop 8) (by rw [length_drop]; omega)
    refine ⟨BitVec.ofNat 8 (bitsNumber (l.take 8)) :: bs, ?_, by rw [length_cons, hlen]⟩
    have hlt := bitsNumber_lt (l.take 8)
    have hbits := numberBits_bitsNumber (l.take 8)
    rw [hfirst] at hlt hbits
    rw [bytesBits, flatMap_cons, BitVec.toNat_ofNat, Nat.mod_eq_of_lt hlt, hbits, ← bytesBits,
      hbs, take_append_drop]

def bitAt (i : Nat) : Bool := (bs.getD (i / 8) 0).getLsbD (7 - i % 8)

theorem map_bitAt : (List.range (8 * bs.length)).map (bitAt bs) = bytesBits bs := by
  induction bs with
  | nil => rfl
  | cons b rest ih =>
    have hfirst : (List.range 8).map (bitAt (b :: rest)) = numberBits b.toNat 8 := by
      apply map_congr_left
      intro i hi
      have hlt := mem_range.mp hi
      rw [bitAt, Nat.div_eq_of_lt hlt, Nat.mod_eq_of_lt hlt, getD_cons_zero]
      rfl
    have hrest : ∀ i, bitAt (b :: rest) (8 + i) = bitAt rest i := by
      intro i
      rw [bitAt, bitAt, Nat.add_div_left i (by decide), Nat.add_mod_left, getD_cons_succ]
    rw [length_cons, Nat.mul_add_one, Nat.add_comm, range_add, map_append, hfirst,
      map_map, bytesBits, flatMap_cons, ← bytesBits, ← ih]
    congr 1
    apply map_congr_left
    intro i _
    exact hrest i

end Zoomies
