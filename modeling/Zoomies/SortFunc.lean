import Mathlib.Data.List.Sort
import Mathlib.Data.String.Basic

/-! Stable sorting by a comparison that tells the elements apart gives one order. -/
namespace Zoomies
open List

variable {α : Type}

variable (cmp : α → α → Ordering)

def ordered (a b : α) : Prop := (cmp a b).isLE

instance (cmp : α → α → Ordering) : DecidableRel (ordered cmp) :=
  fun a b => inferInstanceAs (Decidable ((cmp a b).isLE = true))

def sortStableFunc (l : List α) : List α := l.insertionSort (ordered cmp)

variable {cmp} {l m : List α}

theorem sortStableFunc_perm : (sortStableFunc cmp l).Perm l :=
  perm_insertionSort _ l

@[simp] theorem mem_sortStableFunc {a : α} : a ∈ sortStableFunc cmp l ↔ a ∈ l :=
  sortStableFunc_perm.mem_iff

theorem orderedInsert_append (r : α → α → Prop) [DecidableRel r] {a : α} (l : List α)
    (h : ∀ b ∈ m, r a b) : (l ++ m).orderedInsert r a = l.orderedInsert r a ++ m := by
  induction l with
  | nil =>
    cases m with
    | nil => rfl
    | cons b m => exact orderedInsert_cons_of_le r m (h b mem_cons_self)
  | cons c l ih =>
    rw [cons_append, orderedInsert_cons, orderedInsert_cons, ih]
    split <;> rfl

theorem sortStableFunc_append (cmp : α → α → Ordering) (h : ∀ a ∈ l, ∀ b ∈ m, (cmp a b).isLE) :
    sortStableFunc cmp (l ++ m) = sortStableFunc cmp l ++ sortStableFunc cmp m := by
  induction l with
  | nil => rfl
  | cons a l ih =>
    have hrest := ih fun b hb => h b (mem_cons_of_mem a hb)
    rw [sortStableFunc, sortStableFunc, sortStableFunc] at hrest ⊢
    rw [cons_append, insertionSort_cons, hrest, insertionSort_cons]
    apply orderedInsert_append
    intro b hb
    exact h a mem_cons_self b ((perm_insertionSort _ m).mem_iff.mp hb)

section
variable [Std.TransCmp cmp]

instance : Std.Total (ordered cmp) where
  total a b := by
    unfold ordered
    cases h : cmp a b with
    | lt | eq => exact .inl rfl
    | gt =>
      right
      have hs : cmp b a = (cmp a b).swap := Std.OrientedCmp.eq_swap
      rw [hs, h]
      rfl

instance : IsTrans α (ordered cmp) where
  trans _ _ _ hab hbc := Std.TransCmp.isLE_trans hab hbc

theorem sortStableFunc_pairwise : (sortStableFunc cmp l).Pairwise (ordered cmp) :=
  pairwise_insertionSort _ l

theorem sortStableFunc_eq_of_perm (h : l.Perm m) (hd : ∀ a ∈ l, ∀ b ∈ l, cmp a b = .eq → a = b) :
    sortStableFunc cmp l = sortStableFunc cmp m := by
  have hp : (sortStableFunc cmp l).Perm (sortStableFunc cmp m) :=
    sortStableFunc_perm.trans (h.trans sortStableFunc_perm.symm)
  refine hp.eq_of_pairwise ?_ sortStableFunc_pairwise sortStableFunc_pairwise
  intro a b ha hb hab hba
  have hal : a ∈ l := mem_sortStableFunc.mp ha
  have hbl : b ∈ l := h.mem_iff.mpr (mem_sortStableFunc.mp hb)
  exact hd a hal b hbl (Std.OrientedCmp.isLE_antisymm hab hba)

theorem sortStableFunc_eq_of_key {κ : Type} {key : α → κ} (h : l.Perm m) (hn : (l.map key).Nodup)
    (hk : ∀ a b, cmp a b = .eq → key a = key b) : sortStableFunc cmp l = sortStableFunc cmp m := by
  apply sortStableFunc_eq_of_perm h
  intro a ha b hb hc
  exact inj_on_of_nodup_map hn ha hb (hk a b hc)

theorem sortStableFunc_filter {κ : Type} {key : α → κ} (hn : (l.map key).Nodup)
    (hk : ∀ a b, cmp a b = .eq → key a = key b) (keep : α → Bool) :
    sortStableFunc cmp (l.filter keep) = (sortStableFunc cmp l).filter keep := by
  have hp : (sortStableFunc cmp (l.filter keep)).Perm ((sortStableFunc cmp l).filter keep) :=
    sortStableFunc_perm.trans (sortStableFunc_perm.symm.filter keep)
  refine hp.eq_of_pairwise ?_ sortStableFunc_pairwise
    (sortStableFunc_pairwise.filter keep)
  intro a b ha hb hab hba
  have hal : a ∈ l := mem_of_mem_filter (mem_sortStableFunc.mp ha)
  have hbl : b ∈ l := mem_sortStableFunc.mp (mem_of_mem_filter hb)
  exact inj_on_of_nodup_map hn hal hbl (hk a b (Std.OrientedCmp.isLE_antisymm hab hba))

end

section

def compareFirst (p : α → Bool) (a b : α) : Ordering :=
  if p a && !p b then .lt else if p b && !p a then .gt else .eq

theorem ordered_compareFirst {p : α → Bool} {a b : α} :
    ordered (compareFirst p) a b ↔ (p b = true → p a = true) := by
  unfold ordered compareFirst
  cases p a <;> cases p b <;> simp

theorem sortStableFunc_compareFirst {p : α → Bool} :
    sortStableFunc (compareFirst p) l = l.filter p ++ l.filter fun a => !p a := by
  induction l with
  | nil => rfl
  | cons a rest ih =>
    rw [sortStableFunc] at ih
    rw [sortStableFunc, insertionSort_cons, ih]
    cases ha : p a with
    | true =>
      rw [filter_cons_of_pos ha, filter_cons_of_neg (by rw [ha]; exact Bool.false_ne_true),
        cons_append]
      cases rest.filter p ++ rest.filter fun a => !p a with
      | nil => rfl
      | cons b tail =>
        exact orderedInsert_cons_of_le _ _ (ordered_compareFirst.mpr fun _ => ha)
    | false =>
      rw [filter_cons_of_neg (by rw [ha]; exact Bool.false_ne_true),
        filter_cons_of_pos (by rw [ha]; rfl)]
      have hp : ∀ b ∈ rest.filter p, p b = true := fun b hb => (mem_filter.mp hb).2
      have hn : ∀ b ∈ rest.filter fun a => !p a, p b = false := fun b hb => by
        simpa using (mem_filter.mp hb).2
      generalize rest.filter p = first at hp
      generalize (rest.filter fun a => !p a) = last at hn
      -- it moves past the whole of the first class and stays before its own
      induction first with
      | nil =>
        cases last with
        | nil => rfl
        | cons b tail =>
          apply orderedInsert_cons_of_le
          rw [ordered_compareFirst, hn b mem_cons_self]
          exact fun hb => absurd hb Bool.false_ne_true
      | cons b tail ihf =>
        have hnot : ¬ ordered (compareFirst p) a b := by
          rw [ordered_compareFirst, ha, hp b mem_cons_self]
          exact fun hb => absurd (hb rfl) Bool.false_ne_true
        rw [cons_append, orderedInsert_cons, if_neg hnot,
          ihf fun c hc => hp c (mem_cons_of_mem _ hc), cons_append]

end
end Zoomies
