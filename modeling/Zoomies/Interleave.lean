import Mathlib.Data.List.Nodup
import Mathlib.Algebra.GroupWithZero.Nat
import Mathlib.Data.List.Basic

/-! An array written entry by entry, and blocks sent in turns and dealt back. -/
namespace Zoomies
open List

section
variable {κ β : Type} [DecidableEq κ]

def writeAll (entries : List (κ × β)) (a : κ → β) : κ → β :=
  entries.foldl (fun a e => Function.update a e.1 e.2) a

theorem writeAll_cons (e : κ × β) (entries : List (κ × β)) (a : κ → β) :
    writeAll (e :: entries) a = writeAll entries (Function.update a e.1 e.2) := rfl

variable {entries : List (κ × β)}

theorem writeAll_other (a : κ → β) {k : κ} (h : k ∉ entries.map Prod.fst) :
    writeAll entries a k = a k := by
  induction entries generalizing a with
  | nil => rfl
  | cons e rest ih =>
    rw [map_cons, mem_cons, not_or] at h
    rw [writeAll_cons, ih _ h.2, Function.update_of_ne h.1]

theorem writeAll_of_mem (hn : (entries.map Prod.fst).Nodup) (a : κ → β) {e : κ × β}
    (he : e ∈ entries) : writeAll entries a e.1 = e.2 := by
  induction entries generalizing a with
  | nil => cases he
  | cons d rest ih =>
    rw [map_cons, nodup_cons] at hn
    rw [writeAll_cons]
    rcases mem_cons.mp he with rfl | hmem
    · rw [writeAll_other _ hn.1, Function.update_self]
    · exact ih hn.2 _ hmem

theorem map_writeAll (hn : (entries.map Prod.fst).Nodup) {places : List κ} {values : List β}
    (hl : places.length = values.length) (hsub : places.zip values ⊆ entries) (a : κ → β) :
    places.map (writeAll entries a) = values := by
  apply ext_getElem
  · rw [length_map, hl]
  intro i h₁ h₂
  have hz : i < (places.zip values).length := by
    rw [length_zip, hl, Nat.min_self]
    exact h₂
  have hmem := hsub (getElem_mem hz)
  rw [getElem_zip] at hmem
  rw [getElem_map]
  exact writeAll_of_mem hn a hmem

theorem writeAll_const (places : List κ) (v : β) (a : κ → β) (k : κ) :
    writeAll (places.map fun p => (p, v)) a k = if k ∈ places then v else a k := by
  induction places generalizing a with
  | nil => rfl
  | cons p rest ih =>
    rw [map_cons, writeAll_cons, ih]
    by_cases hk : k ∈ rest
    · rw [if_pos hk, if_pos (mem_cons_of_mem _ hk)]
    rw [if_neg hk]
    by_cases hp : k = p
    · rw [hp, Function.update_self, if_pos mem_cons_self]
    · rw [Function.update_of_ne hp, if_neg fun hm => (mem_cons.mp hm).elim hp hk]

end

section
variable {α : Type}

def cutBlocks : List Nat → List α → List (List α)
  | [], _ => []
  | size :: sizes, l => l.take size :: cutBlocks sizes (l.drop size)

theorem cutBlocks_lengths {sizes : List Nat} (l : List α) (h : sizes.sum ≤ l.length) :
    (cutBlocks sizes l).map List.length = sizes := by
  induction sizes generalizing l with
  | nil => rfl
  | cons size sizes ih =>
    rw [sum_cons] at h
    rw [cutBlocks, map_cons, length_take, ih _ (by rw [length_drop]; omega),
      Nat.min_eq_left (by omega)]

theorem flatten_cutBlocks {sizes : List Nat} (l : List α) (h : sizes.sum = l.length) :
    (cutBlocks sizes l).flatten = l := by
  induction sizes generalizing l with
  | nil =>
    exact (eq_nil_of_length_eq_zero h.symm).symm
  | cons size sizes ih =>
    rw [sum_cons] at h
    rw [cutBlocks, flatten_cons, ih _ (by rw [length_drop]; omega), take_append_drop]

end

section
variable {α : Type}

def roundOf (blocks : List (List α)) (i : Nat) : List α := blocks.filterMap fun b => b[i]?

def sendRounds (blocks : List (List α)) (rounds : Nat) : List α :=
  (List.range rounds).flatMap (roundOf blocks)

def dealRound (i : Nat) : List Nat → List (List α) → List α → List (List α) × List α
  | size :: sizes, block :: blocks, l =>
    if i < size then
      match l with
      | [] => (block :: blocks, [])
      | a :: rest =>
        let dealt := dealRound i sizes blocks rest
        ((block ++ [a]) :: dealt.1, dealt.2)
    else
      let dealt := dealRound i sizes blocks l
      (block :: dealt.1, dealt.2)
  | _, blocks, l => (blocks, l)

def dealRounds (sizes : List Nat) (rounds : Nat) (l : List α) : List (List α) × List α :=
  (List.range rounds).foldl (fun s i => dealRound i sizes s.1 s.2)
    (List.replicate sizes.length [], l)

variable {blocks : List (List α)}

theorem dealRound_take {i size : Nat} {sizes : List Nat} {block : List α}
    {a : α} {rest : List α} (h : i < size) :
    dealRound i (size :: sizes) (block :: blocks) (a :: rest) =
      ((block ++ [a]) :: (dealRound i sizes blocks rest).1, (dealRound i sizes blocks rest).2) :=
  if_pos h

theorem dealRound_skip {i size : Nat} {sizes : List Nat} {block : List α}
    {l : List α} (h : ¬ i < size) : dealRound i (size :: sizes) (block :: blocks) l =
      (block :: (dealRound i sizes blocks l).1, (dealRound i sizes blocks l).2) :=
  if_neg h

theorem dealRound_roundOf (i : Nat) (blocks : List (List α)) (rest : List α) :
    dealRound i (blocks.map List.length) (blocks.map (List.take i)) (roundOf blocks i ++ rest) =
      (blocks.map (List.take (i + 1)), rest) := by
  induction blocks with
  | nil => rfl
  | cons b blocks ih =>
    rw [map_cons, map_cons, map_cons]
    by_cases hi : i < b.length
    · have hround : roundOf (b :: blocks) i = b[i] :: roundOf blocks i :=
        filterMap_cons_some (getElem?_eq_getElem hi)
      rw [hround, cons_append, dealRound_take hi, ih, take_append_getElem hi]
    have hle : b.length ≤ i := Nat.le_of_not_lt hi
    have hround : roundOf (b :: blocks) i = roundOf blocks i :=
      filterMap_cons_none (getElem?_eq_none hle)
    rw [hround, dealRound_skip hi, ih, take_of_length_le hle, take_of_length_le (by omega)]

theorem dealRounds_succ (sizes : List Nat) (rounds : Nat) (l : List α) :
    dealRounds sizes (rounds + 1) l =
      dealRound rounds sizes (dealRounds sizes rounds l).1 (dealRounds sizes rounds l).2 := by
  unfold dealRounds
  rw [range_succ, foldl_append, foldl_cons, foldl_nil]

theorem dealRounds_sendRounds (blocks : List (List α)) (rounds : Nat) (rest : List α) :
    dealRounds (blocks.map List.length) rounds (sendRounds blocks rounds ++ rest) =
      (blocks.map (List.take rounds), rest) := by
  induction rounds generalizing rest with
  | zero =>
    have hnone : blocks.map (List.take 0) = List.replicate (blocks.map List.length).length [] := by
      rw [length_map]
      exact map_const'
    rw [hnone]
    rfl
  | succ rounds ih =>
    have hsend : sendRounds blocks (rounds + 1) = sendRounds blocks rounds ++ roundOf blocks rounds := by
      rw [sendRounds, range_succ, flatMap_append, flatMap_cons, flatMap_nil, append_nil, sendRounds]
    rw [dealRounds_succ, hsend, append_assoc, ih, dealRound_roundOf]

theorem dealRounds_whole {rounds : Nat} (rest : List α)
    (h : ∀ b ∈ blocks, b.length ≤ rounds) :
    dealRounds (blocks.map List.length) rounds (sendRounds blocks rounds ++ rest) =
      (blocks, rest) := by
  have hwhole : blocks.map (List.take rounds) = blocks := by
    conv_rhs => rw [← map_id blocks]
    apply map_congr_left
    intro b hb
    exact take_of_length_le (h b hb)
  rw [dealRounds_sendRounds, hwhole]

theorem length_dealRound (i : Nat) (sizes : List Nat) (blocks : List (List α)) (l : List α) :
    ((dealRound i sizes blocks l).1.map List.length).sum + (dealRound i sizes blocks l).2.length =
      (blocks.map List.length).sum + l.length := by
  induction sizes generalizing blocks l with
  | nil => rw [dealRound]; simp
  | cons size sizes ih =>
    cases blocks with
    | nil => rw [dealRound]; simp
    | cons block blocks =>
      by_cases hi : i < size
      · cases l with
        | nil =>
          have hstop : dealRound i (size :: sizes) (block :: blocks) [] = (block :: blocks, []) :=
            if_pos hi
          rw [hstop]
        | cons a rest =>
          have hrest := ih blocks rest
          rw [dealRound_take hi]
          simp only [map_cons, sum_cons, length_append, length_cons, length_nil]
          omega
      · have hrest := ih blocks l
        rw [dealRound_skip hi]
        simp only [map_cons, sum_cons]
        omega

theorem length_dealRounds (sizes : List Nat) (rounds : Nat) (l : List α) :
    ((dealRounds sizes rounds l).1.map List.length).sum + (dealRounds sizes rounds l).2.length =
      l.length := by
  induction rounds with
  | zero => simp [dealRounds]
  | succ rounds ih => rw [dealRounds_succ, length_dealRound, ih]

theorem length_sendRounds {rounds : Nat}
    (h : ∀ b ∈ blocks, b.length ≤ rounds) :
    (sendRounds blocks rounds).length = (blocks.map List.length).sum := by
  have hdealt := length_dealRounds (blocks.map List.length) rounds (sendRounds blocks rounds ++ [])
  rw [dealRounds_whole [] h, append_nil] at hdealt
  exact hdealt.symm

end

end Zoomies
