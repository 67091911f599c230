import Zoomies.QrSymbol

/-! The reading path visits every data module once and no other, and the encoder places on it what it
has, reserving the function modules of the standard and nothing else. -/
namespace Zoomies.Qr
open List

theorem mem_upTo (a b x : Int) : x ∈ upTo a b ↔ a ≤ x ∧ x ≤ b := by
  rw [upTo, mem_map]
  constructor
  · rintro ⟨i, hi, rfl⟩
    have hlt := mem_range.mp hi
    omega
  · rintro ⟨hax, hxb⟩
    refine ⟨(x - a).toNat, mem_range.mpr (by omega), by omega⟩

theorem nodup_upTo {a b : Int} : (upTo a b).Nodup := by
  apply List.Nodup.map_on _ nodup_range
  omega

section
variable (n : Int)

def columnPair (right : Int) (upward : Bool) : List Cell :=
  (upTo 0 (n - 1)).flatMap fun i =>
    let y := if upward then n - 1 - i else i
    [(right, y), (right - 1, y)]

theorem mem_columnPair (right : Int) (upward : Bool) (c : Cell) :
    c ∈ columnPair n right upward ↔ (c.1 = right ∨ c.1 = right - 1) ∧ 0 ≤ c.2 ∧ c.2 ≤ n - 1 := by
  obtain ⟨x, y⟩ := c
  rw [columnPair, mem_flatMap]
  simp only [mem_cons, Prod.mk.injEq, not_mem_nil, or_false, mem_upTo]
  constructor
  · rintro ⟨i, ⟨h0, hn⟩, h⟩
    cases upward <;> simp only [Bool.false_eq_true, ↓reduceIte] at h <;> omega
  rintro ⟨hx, h0, hn⟩
  cases upward with
  | true => exact ⟨n - 1 - y, by omega, by simp only [↓reduceIte]; omega⟩
  | false => exact ⟨y, by omega, by simpa using hx⟩

theorem nodup_columnPair {right : Int} {upward : Bool} : (columnPair n right upward).Nodup := by
  rw [columnPair, nodup_flatMap]
  constructor
  · have hne : right ≠ right - 1 := by omega
    simp [hne]
  apply (nodup_upTo).imp
  intro i j hij c hi hj
  simp only [mem_cons, not_mem_nil, or_false] at hi hj
  cases upward with
  | true | false => rcases hi with rfl | rfl <;> rcases hj with h | h <;> simp at h <;> omega

theorem readingPath_eq : readingPath n = (List.range ((n - 1) / 2).toNat).flatMap fun k =>
      columnPair n (pairColumn n k) (k % 2 == 0) := by
  simp [readingPath, columnPair]

structure SymbolWide (n : Int) : Prop where
  odd : n % 2 = 1
  wide : 21 ≤ n

variable {n} (hn : SymbolWide n)
include hn

theorem mem_readingPath (c : Cell) : c ∈ readingPath n ↔
    (0 ≤ c.1 ∧ c.1 ≤ n - 1) ∧ (0 ≤ c.2 ∧ c.2 ≤ n - 1) ∧ c.1 ≠ 6 := by
  obtain ⟨hodd, hwide⟩ := hn
  rw [readingPath_eq, mem_flatMap]
  simp only [mem_range, mem_columnPair, pairColumn]
  constructor
  · rintro ⟨k, hk, hx, hy⟩
    split at hx <;> omega
  rintro ⟨⟨hx0, hxn⟩, hy, h6⟩
  by_cases hx : c.1 > 6
  · refine ⟨((n - 1 - c.1) / 2).toNat, by omega, ?_, hy⟩
    omega
  · refine ⟨((n - 2 - c.1) / 2).toNat, by omega, ?_, hy⟩
    omega

omit hn in
theorem nodup_readingPath : (readingPath n).Nodup := by
  rw [readingPath_eq, nodup_flatMap]
  refine ⟨fun k _ => nodup_columnPair n, ?_⟩
  apply (pairwise_lt_range).imp
  intro k l hkl c hk hl
  rw [mem_columnPair] at hk hl
  simp only [pairColumn] at hk hl
  split at hk <;> split at hl <;> omega

end

variable {version : Nat}

theorem symbolWide (h : 1 ≤ version) : SymbolWide (symbolSize version) where
  odd := by rw [symbolSize]; omega
  wide := by rw [symbolSize]; omega

def InSymbol (n : Int) (c : Cell) : Prop :=
  (0 ≤ c.1 ∧ c.1 < n) ∧ 0 ≤ c.2 ∧ c.2 < n

theorem functionModule_timing {c : Cell} (h6 : c.1 = 6) : functionModule version c = true := by
  simp only [functionModule, patternModule, finderModule, timingModule, formatModule,
    Bool.or_eq_true, Bool.and_eq_true, decide_eq_true_eq, beq_iff_eq]
  omega

theorem nodup_dataModules : (dataModules version).Nodup :=
  nodup_readingPath.filter _

theorem mem_dataModules (h : 1 ≤ version) {c : Cell} :
    c ∈ dataModules version ↔ InSymbol (symbolSize version) c ∧ functionModule version c = false := by
  rw [dataModules, mem_filter, mem_readingPath (symbolWide h), Bool.not_eq_true']
  constructor
  · rintro ⟨⟨hx, hy, -⟩, hf⟩
    exact ⟨by rw [InSymbol]; omega, hf⟩
  rintro ⟨hin, hf⟩
  have h6 : c.1 ≠ 6 := by
    intro h6
    rw [functionModule_timing h6] at hf
    exact Bool.noConfusion hf
  obtain ⟨hx, hy⟩ := hin
  exact ⟨by omega, hf⟩

end Zoomies.Qr

namespace Zoomies.Qr

section

def span (a b : Nat) : Nat := (2 ^ (b + 1 - a) - 1) <<< a

theorem testBit_span (a b x : Nat) : (span a b).testBit x = (decide (a ≤ x) && decide (x ≤ b)) := by
  rw [span, Nat.testBit_shiftLeft, Nat.testBit_two_pow_sub_one]
  by_cases h : a ≤ x
  · simp only [ge_iff_le, h, decide_true, Bool.true_and, decide_eq_decide]
    omega
  · simp [h]

theorem testBit_ite (p : Prop) [Decidable p] (m x : Nat) :
    (if p then m else 0).testBit x = (decide p && m.testBit x) := by
  by_cases h : p
  · rw [if_pos h, decide_eq_true h, Bool.true_and]
  · rw [if_neg h, decide_eq_false h, Bool.false_and, Nat.zero_testBit]

theorem testBit_foldr_or {α : Type} (f : α → Nat) (l : List α) (x : Nat) :
    (l.foldr (fun a m => f a ||| m) 0).testBit x = l.any fun a => (f a).testBit x := by
  induction l with
  | nil => exact Nat.zero_testBit x
  | cons a rest ih => rw [List.foldr_cons, Nat.testBit_or, ih, List.any_cons]

variable (version n y : Nat)

def finderRow : Nat :=
  (if y ≤ 7 then span 0 7 ||| span (n - 8) (n - 1) else 0) ||| (if n - 8 ≤ y then span 0 7 else 0)

def timingRow : Nat :=
  (if y = 6 then span 8 (n - 9) else 0) ||| (if 8 ≤ y ∧ y ≤ n - 9 then span 6 6 else 0)

def versionRow : Nat :=
  (if 7 ≤ version ∧ n - 11 ≤ y ∧ y ≤ n - 9 then span 0 5 else 0) |||
    (if 7 ≤ version ∧ y ≤ 5 then span (n - 11) (n - 9) else 0)

def formatRow : Nat :=
  (if y = 8 then span 0 8 ||| span (n - 8) (n - 1) else 0) |||
    (if y ≤ 8 ∨ n - 8 ≤ y then span 8 8 else 0)

def alignmentRow : Nat :=
  (alignment version).foldr (fun cy m => (alignment version).foldr (fun cx m =>
    (if finderModule (symbolSize version) (cx, cy) = false ∧ cy - 2 ≤ y ∧ y ≤ cy + 2 then
      span (cx - 2).toNat (cx + 2).toNat else 0) ||| m) 0 ||| m) 0

theorem alignment_pos {version : Nat} : ∀ c ∈ alignment version, 6 ≤ c := by
  unfold alignment
  split <;> simp

theorem testBit_alignmentRow (x y : Nat) :
    (alignmentRow version y).testBit x = alignmentModule version (x, y) := by
  have hspan : ∀ cx ∈ alignment version, ∀ cy : Int,
      (if finderModule (symbolSize version) (cx, cy) = false ∧ cy - 2 ≤ (y : Int) ∧ (y : Int) ≤ cy + 2
        then span (cx - 2).toNat (cx + 2).toNat else 0).testBit x =
      (!finderModule (symbolSize version) (cx, cy) &&
        (decide (cx - 2 ≤ (x : Int)) && decide ((x : Int) ≤ cx + 2) && decide (cy - 2 ≤ (y : Int)) &&
          decide ((y : Int) ≤ cy + 2))) := by
    intro cx hcx cy
    have hpos := alignment_pos cx hcx
    cases finderModule (symbolSize version) (cx, cy) with
    | true => simp
    | false =>
      rw [testBit_ite, testBit_span, Bool.eq_iff_iff]
      simp only [Bool.and_eq_true, decide_eq_true_eq, Bool.not_false, true_and]
      omega
  rw [alignmentRow, testBit_foldr_or, alignmentModule, Bool.eq_iff_iff, List.any_eq_true,
    List.any_eq_true]
  refine exists_congr fun cy => and_congr_right fun _ => ?_
  rw [testBit_foldr_or, List.any_eq_true, List.any_eq_true]
  refine exists_congr fun cx => and_congr_right fun hcx => ?_
  rw [hspan cx hcx cy]

section
variable {n x y : Nat} (hn : 21 ≤ n) (hx : x < n)
include hn hx

theorem testBit_finderRow : (finderRow n y).testBit x = finderModule n (x, y) := by
  rw [Bool.eq_iff_iff]
  simp only [finderRow, finderModule, Nat.testBit_or, testBit_ite, testBit_span, Bool.or_eq_true,
    Bool.and_eq_true, decide_eq_true_eq]
  omega

omit hx in
theorem testBit_timingRow : (timingRow n y).testBit x = timingModule n (x, y) := by
  rw [Bool.eq_iff_iff]
  simp only [timingRow, timingModule, Nat.testBit_or, testBit_ite, testBit_span, Bool.or_eq_true,
    Bool.and_eq_true, decide_eq_true_eq, beq_iff_eq]
  omega

theorem testBit_formatRow : (formatRow n y).testBit x = formatModule n (x, y) := by
  rw [Bool.eq_iff_iff]
  simp only [formatRow, formatModule, Nat.testBit_or, testBit_ite, testBit_span, Bool.or_eq_true,
    Bool.and_eq_true, decide_eq_true_eq, beq_iff_eq]
  omega

end

theorem testBit_versionRow (version x y : Nat) :
    (versionRow version (17 + 4 * version) y).testBit x = versionModule version (x, y) := by
  have hsize : symbolSize version = 17 + 4 * version := rfl
  rw [Bool.eq_iff_iff]
  simp only [versionRow, versionModule, Nat.testBit_or, testBit_ite, testBit_span, Bool.or_eq_true,
    Bool.and_eq_true, decide_eq_true_eq]
  omega

def functionRow (version y : Nat) : Nat :=
  let n := 17 + 4 * version
  finderRow n y ||| timingRow n y ||| alignmentRow version y ||| versionRow version n y |||
    formatRow n y

theorem testBit_functionRow {version x : Nat} {y : Nat} (h : 1 ≤ version) (hx : x < 17 + 4 * version) :
    (functionRow version y).testBit x = functionModule version (x, y) := by
  have hsize : symbolSize version = ((17 + 4 * version : Nat) : Int) := by
    rw [symbolSize]
    omega
  have hn : 21 ≤ 17 + 4 * version := by omega
  rw [functionRow, functionModule, patternModule, hsize, Nat.testBit_or, Nat.testBit_or,
    Nat.testBit_or, Nat.testBit_or, testBit_finderRow hn hx, testBit_timingRow hn,
    testBit_alignmentRow, testBit_versionRow, testBit_formatRow hn hx]

end

section

def dataRows (version : Nat) : List Cell :=
  (List.range (17 + 4 * version)).flatMap fun y : Nat =>
    ((List.range (17 + 4 * version)).filter fun x : Nat => !functionModule version (x, y)).map
      fun x : Nat => ((x : Int), (y : Int))

theorem mem_dataRows (version : Nat) (c : Cell) :
    c ∈ dataRows version ↔ InSymbol (symbolSize version) c ∧ functionModule version c = false := by
  rw [dataRows, List.mem_flatMap]
  simp only [List.mem_range, List.mem_map, List.mem_filter, InSymbol, symbolSize]
  constructor
  · rintro ⟨y, hy, x, ⟨hx, hf⟩, rfl⟩
    exact ⟨by omega, by simpa using hf⟩
  rintro ⟨⟨hx, hy⟩, hf⟩
  obtain ⟨x, hcx⟩ := Int.eq_ofNat_of_zero_le hx.1
  obtain ⟨y, hcy⟩ := Int.eq_ofNat_of_zero_le hy.1
  have hc : c = ((x : Int), (y : Int)) := Prod.ext hcx hcy
  rw [hc] at hf
  refine ⟨y, by omega, x, ⟨by omega, by simpa using hf⟩, hc.symm⟩

theorem nodup_dataRows {version : Nat} : (dataRows version).Nodup := by
  rw [dataRows, List.nodup_flatMap]
  constructor
  · intro y _
    apply List.Nodup.map_on _ (List.nodup_range.filter _)
    intro i _ j _ hij
    exact Int.ofNat.inj (Prod.mk.inj hij).1
  apply List.nodup_range.imp
  intro y z hyz c hy hz
  obtain ⟨i, -, rfl⟩ := List.mem_map.mp hy
  obtain ⟨j, -, hj⟩ := List.mem_map.mp hz
  exact hyz (Int.ofNat.inj (Prod.mk.inj hj).2).symm

def ones : Nat → Nat → Nat
  | 0, _ => 0
  | n + 1, m => m % 2 + ones n (m / 2)

theorem ones_eq (n m : Nat) : ones n m = (List.range n).countP m.testBit := by
  induction n generalizing m with
  | zero => rfl
  | succ n ih =>
    have hsucc : ∀ i, (m.testBit ∘ Nat.succ) i = (m / 2).testBit i := fun i => Nat.testBit_succ m i
    have htail : (List.range n).countP (m.testBit ∘ Nat.succ) =
        (List.range n).countP (m / 2).testBit :=
      List.countP_congr fun i _ => by rw [hsucc i]
    rw [ones, ih, List.range_succ_eq_map, List.countP_cons, List.countP_map, htail,
      Nat.testBit_zero]
    by_cases hm : m % 2 = 1
    · simp [hm, Nat.add_comm]
    · have h0 : m % 2 = 0 := by omega
      simp [h0]

def dataCount (version : Nat) : Nat :=
  ((List.range (17 + 4 * version)).map fun y =>
    17 + 4 * version - ones (17 + 4 * version) (functionRow version y)).sum

theorem length_dataModules {version : Nat} (h : 1 ≤ version) :
    (dataModules version).length = dataCount version := by
  have hperm : (dataModules version).Perm (dataRows version) := by
    rw [List.perm_ext_iff_of_nodup nodup_dataModules nodup_dataRows]
    intro c
    rw [mem_dataModules h, mem_dataRows]
  rw [hperm.length_eq, dataRows, List.length_flatMap, dataCount]
  congr 1
  apply List.map_congr_left
  intro y _
  have hrow : ∀ x ∈ List.range (17 + 4 * version),
      functionModule version (x, y) = (functionRow version y).testBit x :=
    fun x hx => (testBit_functionRow h (List.mem_range.mp hx)).symm
  have hcount : (List.range (17 + 4 * version)).countP (functionRow version y).testBit =
      ((List.range (17 + 4 * version)).filter fun x : Nat => functionModule version (x, y)).length := by
    rw [← List.countP_eq_length_filter]
    exact List.countP_congr fun x hx => by rw [hrow x hx]
  have hsplit : (List.range (17 + 4 * version)).length = _ :=
    List.length_eq_length_filter_add fun x : Nat => functionModule version (x, y)
  rw [List.length_range] at hsplit
  rw [List.length_map, ones_eq, hcount]
  omega

theorem dataCount_bounds : ∀ version ∈ List.range' 1 10,
    8 * totalCodewords version ≤ dataCount version ∧
      dataCount version < 8 * totalCodewords version + 8 := by
  decide +kernel

theorem length_dataModules_bounds {version : Nat} (h1 : 1 ≤ version) (h10 : version ≤ 10) :
    8 * totalCodewords version ≤ (dataModules version).length ∧
      (dataModules version).length < 8 * totalCodewords version + 8 := by
  rw [length_dataModules h1]
  exact dataCount_bounds version (List.mem_range'_1.mpr (by omega))

end
end Zoomies.Qr

namespace Zoomies.Qr
open List

section

theorem setAll_reserved (c : Code) (cells : List (Cell × Bool)) (cell : Cell) :
    (c.setAll cells).reservedMap cell = true ↔
      cell ∈ cells.map Prod.fst ∨ c.reservedMap cell = true := by
  have hmap : cells.map (fun e => (e.1, true)) = (cells.map Prod.fst).map fun p => (p, true) := by
    rw [map_map]
    rfl
  change writeAll (cells.map fun e => (e.1, true)) c.reservedMap cell = true ↔ _
  rw [hmap, writeAll_const]
  by_cases h : cell ∈ cells.map Prod.fst
  · simp [h]
  · simp [h]

theorem reserveAll_reserved (c : Code) (cells : List Cell) (cell : Cell) :
    (c.reserveAll cells).reservedMap cell = true ↔ cell ∈ cells ∨ c.reservedMap cell = true := by
  change writeAll (cells.map fun p => (p, true)) c.reservedMap cell = true ↔ _
  rw [writeAll_const]
  by_cases h : cell ∈ cells
  · simp [h]
  · simp [h]

theorem newCode_reserved (version : Nat) (cell : Cell) : (newCode version).reservedMap cell = true ↔
      cell ∈ (versionCells version (symbolSize version)).map Prod.fst ∨
      cell = (8, symbolSize version - 8) ∨ cell ∈ formatArea (symbolSize version) ∨
      cell ∈ (alignmentCells version).map Prod.fst ∨
      cell ∈ (timingCells (symbolSize version)).map Prod.fst ∨
      cell ∈ (finderCells (symbolSize version)).map Prod.fst := by
  rw [newCode, Code.placeFunctionPatterns]
  simp only [setAll_reserved, reserveAll_reserved]
  simp [Code.setAll, Code.reserveAll, symbolSize]

end

section
variable {n : Int} {c : Cell}

theorem mem_finderCells : c ∈ (finderCells n).map Prod.fst ↔
    InSymbol n c ∧ finderModule n c = true := by
  have hexists : c ∈ (finderCells n).map Prod.fst ↔
      ∃ corner ∈ [((0 : Int), (0 : Int)), (n - 7, 0), (0, n - 7)], InSymbol n c ∧
        (corner.1 - 1 ≤ c.1 ∧ c.1 ≤ corner.1 + 7) ∧ corner.2 - 1 ≤ c.2 ∧ c.2 ≤ corner.2 + 7 := by
    simp only [finderCells, mem_map, mem_flatMap, mem_filterMap, mem_upTo, InSymbol]
    constructor
    · rintro ⟨e, ⟨corner, hcorner, dy, hdy, dx, hdx, he⟩, rfl⟩
      split at he
      · cases he
      · cases he
        exact ⟨corner, hcorner, by dsimp only; omega⟩
    rintro ⟨corner, hcorner, hin, hx, hy⟩
    refine ⟨_, ⟨corner, hcorner, c.2 - corner.2, by omega, c.1 - corner.1, by omega,
      if_neg (by omega)⟩, Prod.ext ?_ ?_⟩
    · dsimp only
      omega
    · dsimp only
      omega
  rw [hexists]
  simp only [mem_cons, not_mem_nil, or_false, exists_eq_or_imp, exists_eq_left, InSymbol,
    finderModule, Bool.or_eq_true, Bool.and_eq_true, decide_eq_true_eq]
  omega

theorem mem_timingCells (hn : 21 ≤ n) : c ∈ (timingCells n).map Prod.fst ↔
    InSymbol n c ∧ timingModule n c = true := by
  obtain ⟨x, y⟩ := c
  simp only [timingCells, mem_map, mem_flatMap, mem_cons, not_mem_nil, or_false,
    mem_upTo, InSymbol, timingModule, Bool.or_eq_true, Bool.and_eq_true, decide_eq_true_eq,
    beq_iff_eq]
  constructor
  · rintro ⟨e, ⟨i, hi, rfl | rfl⟩, hfst⟩
    · obtain ⟨rfl, rfl⟩ := Prod.mk.inj hfst
      omega
    · obtain ⟨rfl, rfl⟩ := Prod.mk.inj hfst
      omega
  rintro ⟨-, ⟨⟨rfl, h8⟩, h9⟩ | ⟨⟨rfl, h8⟩, h9⟩⟩
  · exact ⟨_, ⟨x, by omega, .inl rfl⟩, rfl⟩
  · exact ⟨_, ⟨y, by omega, .inr rfl⟩, rfl⟩

theorem mem_formatArea (hn : 21 ≤ n) : c ∈ formatArea n ↔ InSymbol n c ∧ formatModule n c = true := by
  obtain ⟨x, y⟩ := c
  simp only [formatArea, mem_append, mem_flatMap, mem_cons, not_mem_nil,
    or_false, mem_upTo, Prod.mk.injEq, InSymbol, formatModule, Bool.or_eq_true, Bool.and_eq_true,
    decide_eq_true_eq, beq_iff_eq]
  constructor
  · rintro (⟨i, hi, h⟩ | ⟨i, hi, h⟩) <;> omega
  rintro ⟨hin, ⟨hy, h | h⟩ | ⟨hx, h | h⟩⟩
  · exact .inl ⟨x, by omega⟩
  · exact .inr ⟨n - 1 - x, by omega⟩
  · exact .inl ⟨y, by omega⟩
  · exact .inr ⟨n - 1 - y, by omega⟩

end

section
variable (version : Nat)

theorem mem_versionCells (c : Cell) : c ∈ (versionCells version (symbolSize version)).map Prod.fst ↔
    InSymbol (symbolSize version) c ∧ versionModule version c = true := by
  obtain ⟨x, y⟩ := c
  have hsize : symbolSize version = 17 + 4 * version := rfl
  simp only [versionModule, InSymbol, Bool.or_eq_true, Bool.and_eq_true, decide_eq_true_eq]
  rw [versionCells]
  split
  · simp only [mem_map, mem_flatMap, mem_cons, not_mem_nil, or_false, mem_upTo]
    constructor
    · rintro ⟨e, ⟨i, hi, rfl | rfl⟩, hfst⟩
      · obtain ⟨rfl, rfl⟩ := Prod.mk.inj hfst
        omega
      · obtain ⟨rfl, rfl⟩ := Prod.mk.inj hfst
        omega
    rintro ⟨hin, -, h | h⟩
    · refine ⟨_, ⟨3 * x + (y - (symbolSize version - 11)), by omega, .inl rfl⟩, ?_⟩
      exact Prod.ext (by dsimp only; omega) (by dsimp only; omega)
    · refine ⟨_, ⟨3 * y + (x - (symbolSize version - 11)), by omega, .inr rfl⟩, ?_⟩
      exact Prod.ext (by dsimp only; omega) (by dsimp only; omega)
  · simp only [map_nil, not_mem_nil, false_iff]
    omega

theorem alignment_centres : ∀ version ∈ List.range' 1 10,
    (∀ cy ∈ alignment version, ∀ cx ∈ alignment version, (cx, cy) ∈ alignmentCentres version ↔
      finderModule (symbolSize version) (cx, cy) = false) ∧
    (∀ centre ∈ alignmentCentres version, centre.1 ∈ alignment version ∧
      centre.2 ∈ alignment version) ∧
    ∀ c ∈ alignment version, 2 ≤ c ∧ c + 2 < symbolSize version := by
  decide +kernel

theorem mem_alignmentCells (h : version ∈ List.range' 1 10) (c : Cell) :
    c ∈ (alignmentCells version).map Prod.fst ↔
      InSymbol (symbolSize version) c ∧ alignmentModule version c = true := by
  obtain ⟨hcentre, hmem, hin⟩ := alignment_centres version h
  obtain ⟨x, y⟩ := c
  simp only [alignmentCells, alignmentModule, mem_map, mem_flatMap, mem_upTo,
    any_eq_true, Bool.and_eq_true, Bool.not_eq_true', decide_eq_true_eq, InSymbol]
  constructor
  · rintro ⟨e, ⟨⟨cx, cy⟩, hc, dy, hdy, dx, hdx, rfl⟩, hfst⟩
    obtain ⟨rfl, rfl⟩ := Prod.mk.inj hfst
    obtain ⟨hcx, hcy⟩ := hmem _ hc
    have hbx := hin cx hcx
    have hby := hin cy hcy
    refine ⟨by omega, cy, hcy, cx, hcx, (hcentre cy hcy cx hcx).mp hc, by omega⟩
  rintro ⟨-, cy, hcy, cx, hcx, hf, hnear⟩
  refine ⟨_, ⟨(cx, cy), (hcentre cy hcy cx hcx).mpr hf, y - cy, by omega, x - cx, by omega, rfl⟩,
    Prod.ext ?_ ?_⟩
  · dsimp only
    omega
  · dsimp only
    omega

theorem reserved_iff (h1 : 1 ≤ version) (h10 : version ≤ 10) (c : Cell) :
    (newCode version).reservedMap c = true ↔
      InSymbol (symbolSize version) c ∧ functionModule version c = true := by
  have hwide := (symbolWide h1).wide
  have hdark : c = (8, symbolSize version - 8) → c ∈ formatArea (symbolSize version) := by
    rintro rfl
    rw [mem_formatArea hwide]
    refine ⟨⟨by dsimp only; omega, by dsimp only; omega⟩, ?_⟩
    simp [formatModule]
  rw [newCode_reserved, mem_versionCells, mem_alignmentCells version (mem_range'_1.mpr (by omega)),
    mem_timingCells hwide, mem_finderCells, functionModule, patternModule]
  rw [mem_formatArea hwide] at hdark ⊢
  simp only [Bool.or_eq_true]
  constructor
  · rintro (⟨hin, h⟩ | hd | ⟨hin, h⟩ | ⟨hin, h⟩ | ⟨hin, h⟩ | ⟨hin, h⟩)
    · exact ⟨hin, .inl (.inr h)⟩
    · exact ⟨(hdark hd).1, .inr (hdark hd).2⟩
    · exact ⟨hin, .inr h⟩
    · exact ⟨hin, .inl (.inl (.inr h))⟩
    · exact ⟨hin, .inl (.inl (.inl (.inr h)))⟩
    · exact ⟨hin, .inl (.inl (.inl (.inl h)))⟩
  · rintro ⟨hin, (((h | h) | h) | h) | h⟩
    · exact .inr (.inr (.inr (.inr (.inr ⟨hin, h⟩))))
    · exact .inr (.inr (.inr (.inr (.inl ⟨hin, h⟩))))
    · exact .inr (.inr (.inr (.inl ⟨hin, h⟩)))
    · exact .inl ⟨hin, h⟩
    · exact .inr (.inr (.inl ⟨hin, h⟩))

end

section

theorem zigzagFrom_eq {n : Int} {rights : List Nat} (k : Nat) : zigzagFrom n rights (k % 2 == 0) =
      (rights.zipIdx k).flatMap fun e => columnPair n e.1 (e.2 % 2 == 0) := by
  induction rights generalizing k with
  | nil => rfl
  | cons right rest ih =>
    have hflip : (!(k % 2 == 0)) = ((k + 1) % 2 == 0) := by
      rw [Bool.eq_iff_iff]
      simp only [Bool.not_eq_true', beq_eq_false_iff_ne, beq_iff_eq]
      omega
    rw [zigzagFrom, hflip, ih, zipIdx_cons, flatMap_cons]
    rfl

theorem rightColumns_eq : ∀ version ∈ List.range' 1 10,
    ((rightColumns (symbolSize version - 1).toNat).zipIdx.map fun e => ((e.1 : Int), e.2)) =
      (List.range ((symbolSize version - 1) / 2).toNat).map fun k =>
        (pairColumn (symbolSize version) k, k) := by
  decide +kernel

theorem zigzag_eq {version : Nat} (h1 : 1 ≤ version) (h10 : version ≤ 10) :
    zigzag (symbolSize version) = readingPath (symbolSize version) := by
  have hcols := rightColumns_eq version (mem_range'_1.mpr (by omega))
  have hpath := congrArg (List.flatMap fun e =>
    columnPair (symbolSize version) e.1 (e.2 % 2 == 0)) hcols
  rw [flatMap_map, flatMap_map] at hpath
  rw [zigzag, readingPath_eq, ← hpath]
  exact zigzagFrom_eq 0

end

section
variable (codewords : List Byte) (mask : Nat)

def streamBit (i : Nat) : Bool := i < 8 * codewords.length && bitAt codewords i

def maskedBit (cell : Cell) (b : Bool) : Bool := if maskAt mask cell.1 cell.2 then !b else b

def dataWrites (cells : List Cell) (k : Nat) : List (Cell × Bool) :=
  (cells.zipIdx k).map fun e => (e.1, maskedBit mask e.1 (streamBit codewords e.2))

theorem placeModule_step {reservedMap : Cell → Bool} {k : Nat} {m : Cell → Bool} {cell : Cell}
    (h : reservedMap cell = false) :
    placeModule reservedMap codewords mask (min k (8 * codewords.length), m) cell =
      (min (k + 1) (8 * codewords.length),
        Function.update m cell (maskedBit mask cell (streamBit codewords k))) := by
  rw [placeModule, if_neg (by rw [h]; exact Bool.false_ne_true)]
  by_cases hk : k < 8 * codewords.length
  · have hmin : min k (8 * codewords.length) = k := Nat.min_eq_left hk.le
    rw [hmin, if_pos hk, Nat.min_eq_left (by omega : k + 1 ≤ 8 * codewords.length)]
    rfl
  have hmin : min k (8 * codewords.length) = 8 * codewords.length :=
    Nat.min_eq_right (Nat.le_of_not_lt hk)
  have hlight : streamBit codewords k = false := by
    rw [streamBit, decide_eq_false hk, Bool.false_and]
  rw [hmin, if_neg (Nat.lt_irrefl _), Nat.min_eq_right (by omega : 8 * codewords.length ≤ k + 1),
    hlight, decide_eq_false (Nat.lt_irrefl _), Bool.false_and]
  rfl

theorem placeModules_eq (reservedMap : Cell → Bool) (path : List Cell) (k : Nat)
    (m : Cell → Bool) :
    (path.foldl (placeModule reservedMap codewords mask) (min k (8 * codewords.length), m)).2 =
      writeAll (dataWrites codewords mask (path.filter fun c => !reservedMap c) k) m := by
  induction path generalizing k m with
  | nil => rfl
  | cons cell rest ih =>
    rw [foldl_cons]
    cases h : reservedMap cell with
    | true =>
      have hskip : placeModule reservedMap codewords mask (min k (8 * codewords.length), m) cell =
          (min k (8 * codewords.length), m) := if_pos h
      rw [hskip, ih, filter_cons_of_neg (by rw [h]; exact Bool.false_ne_true)]
    | false =>
      rw [placeModule_step codewords mask h, ih, filter_cons_of_pos (by rw [h]; rfl)]
      rfl

theorem placeData_modules (c : Code) : (c.placeData codewords mask).modules =
    writeAll (dataWrites codewords mask ((zigzag c.size).filter fun cell => !c.reservedMap cell) 0)
      c.modules := by
  have h := placeModules_eq codewords mask c.reservedMap (zigzag c.size) 0 c.modules
  exact h

theorem dataWrites_fst (cells : List Cell) (k : Nat) :
    (dataWrites codewords mask cells k).map Prod.fst = cells := by
  rw [dataWrites, map_map]
  exact zipIdx_map_fst k cells

theorem map_eq_map_range {α β : Type} {l : List α} {f : α → β} {g : Nat → β}
    (h : ∀ e ∈ l.zipIdx, f e.1 = g e.2) : l.map f = (List.range l.length).map g := by
  apply ext_getElem
  · rw [length_map, length_map, length_range]
  intro i h₁ h₂
  rw [length_map] at h₁
  have hmem : (l[i], i) ∈ l.zipIdx :=
    mk_mem_zipIdx_iff_getElem?.mpr (getElem?_eq_getElem h₁)
  rw [getElem_map, getElem_map, getElem_range]
  exact h _ hmem

theorem read_dataWrites {cells : List Cell} (hn : cells.Nodup)
    (hlen : 8 * codewords.length ≤ cells.length) (m : Cell → Bool) :
    (cells.map fun c => writeAll (dataWrites codewords mask cells 0) m c ^^
        maskAt mask c.1 c.2).take (8 * codewords.length) = bytesBits codewords := by
  have hkeys : ((dataWrites codewords mask cells 0).map Prod.fst).Nodup := by
    rw [dataWrites_fst]
    exact hn
  have hread : ∀ e ∈ cells.zipIdx, (writeAll (dataWrites codewords mask cells 0) m e.1 ^^
      maskAt mask e.1.1 e.1.2) = streamBit codewords e.2 := by
    intro e he
    have hwrite := writeAll_of_mem hkeys m (mem_map_of_mem he)
    rw [hwrite, maskedBit]
    cases maskAt mask e.1.1 e.1.2 <;> cases streamBit codewords e.2 <;> rfl
  rw [map_eq_map_range hread, ← map_take, take_range, Nat.min_eq_left hlen, ← map_bitAt]
  apply map_congr_left
  intro i hi
  rw [streamBit, decide_eq_true (mem_range.mp hi), Bool.true_and]

end

section
variable (n : Int) (mask : Nat)

theorem inverted_eq (x y : Int) : inverted mask y x = maskAt mask x y := by
  unfold inverted maskAt
  split <;> simp only [Int.add_comm y x, Int.mul_comm y x]

def formatEntries : List (Cell × Bool) :=
  formatCells.zip ((List.range 15).map (formatBits mask).testBit) ++
    (formatCellsSplit n).zip ((List.range 15).map (formatBits mask).testBit) ++ [((8, n - 8), true)]

def formatPlaces : List Cell := formatCells ++ formatCellsSplit n ++ [(8, n - 8)]

theorem length_copy (copy : FormatCopy) : (copy.cells n).length = 15 := by
  cases copy with
  | corner => rfl
  | split =>
    rfl

theorem formatPlaces_facts : ∀ version ∈ List.range' 1 10,
    (formatPlaces (symbolSize version)).Nodup ∧ ∀ c ∈ formatPlaces (symbolSize version),
      formatModule (symbolSize version) c = true ∧ patternModule version c = false := by
  decide +kernel

theorem formatBits_facts : ∀ mask < 8, formatBits mask < 2 ^ 15 ∧
    readMask (formatBits mask) = some mask := by
  decide

end
end Zoomies.Qr
