import Mathlib.Data.List.Nodup

/-! Which items a reader of a feed in rising order of a key cannot have missed. -/
namespace Zoomies
open List

section
variable {α : Type} (key : α → Nat) (wanted : α → Prop)

structure Gapless (l : List α) : Prop where
  rising : l.Pairwise fun a b => key a < key b
  between : ∀ a ∈ l, ∀ b ∈ l, ∀ w, wanted w → key a ≤ key w → key w ≤ key b → w ∈ l

structure UpToDate (l : List α) : Prop where
  rising : l.Pairwise fun a b => key a < key b
  onward : ∀ a ∈ l, ∀ w, wanted w → key a ≤ key w → w ∈ l

variable {key wanted}

theorem UpToDate.gapless (l : List α) (h : UpToDate key wanted l) : Gapless key wanted l :=
  ⟨h.rising, fun a ha _ _ w hw hle _ => h.onward a ha w hw hle⟩

theorem gapless_nil : Gapless key wanted [] :=
  ⟨List.Pairwise.nil, fun _ ha => nomatch ha⟩

theorem Gapless.left (l m : List α) (h : Gapless key wanted (l ++ m)) : Gapless key wanted l := by
  obtain ⟨hl, -, hcross⟩ := pairwise_append.mp h.rising
  refine ⟨hl, fun a ha b hb w hw hle hge => ?_⟩
  have hmem := h.between a (mem_append_left _ ha) b (mem_append_left _ hb) w hw hle hge
  rcases mem_append.mp hmem with hwl | hwm
  · exact hwl
  · have hlt := hcross b hb w hwm
    omega

theorem Gapless.grow (wanted' : α → Prop) (l : List α) (h : Gapless key wanted l)
    (hnew : ∀ w, wanted' w → wanted w ∨ ∀ a ∈ l, key a < key w) : Gapless key wanted' l := by
  refine ⟨h.rising, fun a ha b hb w hw hle hge => ?_⟩
  rcases hnew w hw with hold | habove
  · exact h.between a ha b hb w hold hle hge
  · have hlt := habove b hb
    omega

theorem UpToDate.snoc {wanted' : α → Prop} {l : List α} {x : α} (h : UpToDate key wanted l)
    (hx : ∀ a ∈ l, key a < key x) (hnew : ∀ w, wanted' w → wanted w ∨ w = x)
    (hempty : ∀ w, wanted w → key w < key x) : UpToDate key wanted' (l ++ [x]) := by
  refine ⟨?_, fun a ha w hw hle => ?_⟩
  · rw [pairwise_append]
    refine ⟨h.rising, pairwise_singleton _ _, fun a ha b hb => ?_⟩
    rw [mem_singleton.mp hb]
    exact hx a ha
  rcases hnew w hw with hold | rfl
  · rcases mem_append.mp ha with hal | hax
    · exact mem_append_left _ (h.onward a hal w hold hle)
    rw [mem_singleton.mp hax] at hle
    have hlt := hempty w hold
    omega
  · exact mem_append_right _ mem_cons_self

theorem UpToDate.grow (wanted' : α → Prop) (l : List α) (h : UpToDate key wanted l)
    (hnew : ∀ w, wanted' w → wanted w) : UpToDate key wanted' l :=
  ⟨h.rising, fun a ha w hw hle => h.onward a ha w (hnew w hw) hle⟩

variable {l : List α}

theorem Gapless.resume {m : List α} {last : α} (h : Gapless key wanted l)
    (hlast : l.getLast? = some last) (hm : m.Pairwise fun a b => key a < key b)
    (hafter : ∀ b ∈ m, key last < key b) (hall : ∀ w, wanted w → key last < key w → w ∈ m) :
    UpToDate key wanted (l ++ m) := by
  have hlastmem : last ∈ l := mem_of_getLast? hlast
  have htop : ∀ a ∈ l, key a ≤ key last := by
    obtain ⟨front, rfl⟩ := getLast?_eq_some_iff.mp hlast
    intro a ha
    rcases mem_append.mp ha with hfront | hend
    · exact Nat.le_of_lt ((pairwise_append.mp h.rising).2.2 a hfront last mem_cons_self)
    · exact Nat.le_of_eq (congrArg key (mem_singleton.mp hend))
  refine ⟨?_, fun a ha w hw hle => ?_⟩
  · rw [pairwise_append]
    refine ⟨h.rising, hm, fun a ha b hb => ?_⟩
    exact Nat.lt_of_le_of_lt (htop a ha) (hafter b hb)
  by_cases hbeyond : key last < key w
  · exact mem_append_right _ (hall w hw hbeyond)
  apply mem_append_left
  rcases mem_append.mp ha with hal | ham
  · exact h.between a hal last hlastmem w hw hle (by omega)
  · have hlt := hafter a ham
    omega

theorem mem_drop_of_rising {n : Nat} (h : l.Pairwise fun a b => key a < key b) {a w : α}
    (ha : a ∈ l.drop n) (hw : w ∈ l) (hle : key a ≤ key w) : w ∈ l.drop n := by
  rw [← take_append_drop n l] at h hw
  rcases mem_append.mp hw with htake | hdrop
  · have hlt := (pairwise_append.mp h).2.2 w htake a ha
    omega
  · exact hdrop

theorem count_of_rising [DecidableEq α] (h : l.Pairwise fun a b => key a < key b) {w : α}
    (hw : w ∈ l) : l.count w = 1 := by
  have hnodup : l.Nodup := h.imp fun hlt heq => by
    rw [heq] at hlt
    exact Nat.lt_irrefl _ hlt
  exact count_eq_one_of_mem hnodup hw

end

end Zoomies
