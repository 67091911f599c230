import Mathlib.Data.List.Basic

/-! Reports that may leave a field blank: where those that carry it agree, order and repetition do
not matter. -/
namespace Zoomies
open List

section
variable {α β ι : Type} [DecidableEq α] (φ : α → β) (f : ι → α) (blank : α)

def known (l : List ι) : α :=
  match l with
  | [] => blank
  | i :: rest => if f i = blank then known rest else f i

def AgreeOn (l : List ι) : Prop :=
  ∀ a ∈ l, ∀ b ∈ l, f a ≠ blank → f b ≠ blank → φ (f a) = φ (f b)

theorem known_cases {l : List ι} : (known f blank l = blank ∧ ∀ i ∈ l, f i = blank) ∨
      (known f blank l ≠ blank ∧ ∃ i ∈ l, f i = known f blank l) := by
  induction l with
  | nil =>
    left
    refine ⟨rfl, ?_⟩
    intro i hi
    cases hi
  | cons i rest ih =>
    rw [known]
    by_cases hi : f i = blank
    · rw [if_pos hi]
      rcases ih with ⟨h, hall⟩ | ⟨h, k, hk, he⟩
      · left
        refine ⟨h, ?_⟩
        intro k hk
        rcases mem_cons.mp hk with rfl | hk
        · exact hi
        · exact hall k hk
      · exact .inr ⟨h, k, mem_cons_of_mem _ hk, he⟩
    · rw [if_neg hi]
      exact .inr ⟨hi, i, mem_cons_self, rfl⟩

variable {f blank φ}

theorem known_congr {l l' : List ι} (hset : ∀ i, i ∈ l ↔ i ∈ l') (h : AgreeOn φ f blank l) :
    φ (known f blank l) = φ (known f blank l') := by
  rcases known_cases f blank with ⟨hb, hall⟩ | ⟨hb, i, hi, he⟩
  · rcases known_cases f blank with ⟨hb', -⟩ | ⟨hb', k, hk, he'⟩
    · rw [hb, hb']
    · rw [← he', hall k ((hset k).mpr hk)] at hb'
      exact absurd rfl hb'
  rcases known_cases f blank with ⟨-, hall'⟩ | ⟨hb', k, hk, he'⟩
  · rw [← he, hall' i ((hset i).mp hi)] at hb
    exact absurd rfl hb
  rw [← he, ← he']
  apply h i hi k ((hset k).mpr hk)
  · rw [he]
    exact hb
  · rw [he']
    exact hb'

theorem known_append (l : List ι) (i : ι) :
    known f blank (l ++ [i]) = if known f blank l = blank then f i else known f blank l := by
  induction l with
  | nil =>
    rw [nil_append, known, known, if_pos rfl]
    split
    · rename_i h
      exact h.symm
    · rfl
  | cons k rest ih =>
    rw [cons_append, known, known]
    by_cases hk : f k = blank
    · rw [if_pos hk, if_pos hk]
      exact ih
    · rw [if_neg hk, if_neg hk, if_neg hk]

theorem known_step {l : List ι} {i : ι} (h : AgreeOn φ f blank (l ++ [i])) (takes : Prop)
    [Decidable takes] (hcarried : takes → f i ≠ blank)
    (hblank : known f blank l = blank → f i ≠ blank → takes) :
    φ (known f blank (l ++ [i])) = if takes then φ (f i) else φ (known f blank l) := by
  rw [known_append]
  rcases known_cases f blank with ⟨hb, -⟩ | ⟨hb, k, hk, he⟩
  · rw [if_pos hb]
    by_cases hi : f i = blank
    · have hno : ¬takes := fun ht => hcarried ht hi
      rw [if_neg hno, hi, hb]
    · rw [if_pos (hblank hb hi)]
  rw [if_neg hb]
  by_cases ht : takes
  · -- something is known already, and the report agrees with it
    rw [if_pos ht, ← he]
    apply h k (mem_append_left _ hk) i (mem_append_right _ mem_cons_self)
    · rw [he]
      exact hb
    · exact hcarried ht
  · rw [if_neg ht]

end

end Zoomies
