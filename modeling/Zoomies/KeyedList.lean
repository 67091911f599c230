import Mathlib.Algebra.Order.Group.Int.Sum

/-! Sums over lists, and rows told apart by a key: a lookup finds the row, whatever the order. -/
namespace Zoomies
open List

section
variable {α β M : Type} [AddCommMonoid M]

variable {l : List α}

theorem sum_map_filter {p : α → Prop} [DecidablePred p] {f : α → M} :
    ((l.filter fun a => p a).map f).sum = (l.map fun a => if p a then f a else 0).sum := by
  induction l with
  | nil => rfl
  | cons a rest ih =>
    by_cases h : p a
    · rw [filter_cons_of_pos (by simpa using h), map_cons, map_cons, sum_cons,
        sum_cons, ih, if_pos h]
    · rw [filter_cons_of_neg (by simpa using h), map_cons, sum_cons, ih, if_neg h, zero_add]

theorem sum_map_eq_of_nodup [DecidableEq α] (hn : l.Nodup) {a : α} {m : M} :
    (l.map fun b => if a = b then m else 0).sum = if a ∈ l then m else 0 := by
  induction l with
  | nil => rfl
  | cons b rest ih =>
    rw [nodup_cons] at hn
    rw [map_cons, sum_cons, ih hn.2]
    by_cases hab : a = b
    · subst hab
      rw [if_pos rfl, if_neg hn.1, add_zero, if_pos mem_cons_self]
    have hmem : a ∈ b :: rest ↔ a ∈ rest := by
      rw [mem_cons]
      exact or_iff_right hab
    rw [if_neg hab, zero_add]
    exact (if_congr hmem rfl rfl).symm

theorem sum_map_set {f : α → M} (i : Nat) {a b : α} {d : M} (hi : l[i]? = some a)
    (hb : f b = f a + d) : ((l.set i b).map f).sum = (l.map f).sum + d := by
  induction l generalizing i with
  | nil => cases hi
  | cons c rest ih =>
    cases i with
    | zero =>
      have hc : c = a := Option.some.inj hi
      rw [set_cons_zero, map_cons, map_cons, sum_cons, sum_cons, hb, hc, add_right_comm]
    | succ i =>
      rw [set_cons_succ, map_cons, map_cons, sum_cons, sum_cons, ih i hi, add_assoc]

theorem sum_map_flatMap (l : List α) (f : α → List β) (g : β → M) :
    ((l.flatMap f).map g).sum = (l.map fun a => ((f a).map g).sum).sum := by
  induction l with
  | nil => rfl
  | cons a rest ih =>
    rw [flatMap_cons, map_append, sum_append, ih, map_cons, sum_cons]

theorem sum_map_comm (l : List α) (m : List β) (f : α → β → M) :
    (l.map fun a => (m.map fun b => f a b).sum).sum =
      (m.map fun b => (l.map fun a => f a b).sum).sum := by
  induction l with
  | nil =>
    have hzero : (m.map fun _ => (0 : M)).sum = 0 := by
      induction m with
      | nil => rfl
      | cons b rest ih => rw [map_cons, sum_cons, ih, zero_add]
    exact hzero.symm
  | cons a rest ih =>
    simp only [map_cons, sum_cons]
    rw [ih, ← sum_map_add]

end

section
variable {α κ : Type} [DecidableEq κ] (key : α → κ)

variable {a : α}

theorem find?_eq_of_nodup {l : List α} (hn : (l.map key).Nodup) (ha : a ∈ l) :
    l.find? (fun b => key b == key a) = some a := by
  induction l with
  | nil => cases ha
  | cons b rest ih =>
    rw [map_cons, nodup_cons] at hn
    rcases mem_cons.mp ha with rfl | hm
    · simp
    have hne : key b ≠ key a := by
      intro he
      exact hn.1 (he ▸ mem_map_of_mem hm)
    rw [find?_cons_of_neg (by simpa using hne)]
    exact ih hn.2 hm

theorem find?_perm {l l' : List α} (hn : (l.map key).Nodup) (hp : l.Perm l') (k : κ) :
    l.find? (fun b => key b == k) = l'.find? (fun b => key b == k) := by
  have hn' : (l'.map key).Nodup := (hp.map key).nodup_iff.mp hn
  cases hf : l.find? (fun b => key b == k) with
  | none =>
    rw [find?_eq_none] at hf
    symm
    rw [find?_eq_none]
    intro b hb
    exact hf b (hp.mem_iff.mpr hb)
  | some a =>
    have hk : key a = k := by simpa using find?_some hf
    rw [← hk]
    exact (find?_eq_of_nodup key hn' (hp.mem_iff.mp (mem_of_find?_eq_some hf))).symm

theorem find?_filter_map {β : Type} {key' : β → κ} (g : α → β) (hg : ∀ a, key' (g a) = key a)
    {p : α → Bool} {l : List α} (hn : (l.map key).Nodup) {k : κ} :
    ((l.filter p).map g).find? (fun b => key' b == k) =
      ((l.find? fun a => key a == k).filter p).map g := by
  rw [find?_map]
  simp only [Function.comp_def, hg]
  congr 1
  cases hf : l.find? (fun a => key a == k) with
  | none =>
    rw [find?_eq_none] at hf
    exact find?_eq_none.mpr fun a ha => hf a (mem_of_mem_filter ha)
  | some a =>
    have hk : key a = k := by simpa using find?_some hf
    have hmem := mem_of_find?_eq_some hf
    cases hp : p a with
    | true =>
      have hsub : ((l.filter p).map key).Nodup := hn.sublist (filter_sublist.map key)
      have hin : a ∈ l.filter p := mem_filter.mpr ⟨hmem, hp⟩
      rw [← hk, find?_eq_of_nodup key hsub hin, Option.filter_some, if_pos hp]
    | false =>
      have hnone : (l.filter p).find? (fun b => key b == k) = none := by
        apply find?_eq_none.mpr
        intro b hb hbk
        obtain ⟨hbl, hbp⟩ := mem_filter.mp hb
        have hkb : key b = k := by simpa using hbk
        have hab : b = a := inj_on_of_nodup_map hn hbl hmem (hkb.trans hk.symm)
        rw [hab, hp] at hbp
        cases hbp
      rw [hnone, Option.filter_some, hp]
      rfl

omit [DecidableEq κ] in
theorem map_filterMap_sublist {β : Type} {key' : β → κ} {f : α → Option β} {l : List α}
    (h : ∀ a b, f a = some b → key' b = key a) :
    ((l.filterMap f).map key').Sublist (l.map key) := by
  induction l with
  | nil => exact List.Sublist.refl _
  | cons a rest ih =>
    cases hf : f a with
    | none =>
      rw [filterMap_cons_none hf]
      exact ih.cons _
    | some b =>
      rw [filterMap_cons_some hf, map_cons, h a b hf]
      exact ih.cons_cons _

theorem sum_filter_length_le (l : List α) {ks : List κ} (hn : ks.Nodup) :
    (ks.map fun k => (l.filter fun a => key a = k).length).sum ≤ l.length := by
  induction ks generalizing l with
  | nil => exact Nat.zero_le _
  | cons k rest ih =>
    rw [nodup_cons] at hn
    -- the rows of the other keys are all among those without this one
    have hothers : ∀ k' ∈ rest, (l.filter fun a => key a = k').length =
        ((l.filter fun a => key a ≠ k).filter fun a => key a = k').length := by
      intro k' hk'
      have hne : k' ≠ k := fun he => hn.1 (he ▸ hk')
      rw [filter_filter]
      congr 1
      apply filter_congr
      intro a _
      by_cases ha : key a = k'
      · simp [ha, hne]
      · simp [ha]
    have hsplit := length_eq_length_filter_add (l := l) fun a => decide (key a = k)
    have hrest := ih (l.filter fun a => key a ≠ k) hn.2
    rw [map_cons, sum_cons, map_congr_left hothers]
    simp only [decide_not] at hrest hsplit ⊢
    omega

theorem countP_mem_cons {l : List α} {q : α → Bool} {k : κ} {ks : List κ} (hk : k ∉ ks) :
    (l.countP fun a => decide (key a ∈ k :: ks) && q a) =
      (l.countP fun a => decide (key a = k) && q a) +
        l.countP fun a => decide (key a ∈ ks) && q a := by
  induction l with
  | nil => rfl
  | cons a l ih =>
    rw [countP_cons, countP_cons, countP_cons, ih]
    by_cases hak : key a = k
    · cases q a
      · simp
      · simp [hak, hk]
        omega
    cases q a
    · simp
    · simp [hak]
      omega

theorem sum_countP_key (l : List α) (q : α → Bool) (ks : List κ) (hn : ks.Nodup) :
    (ks.map fun k => ((l.countP fun a => decide (key a = k) && q a : Nat) : Int)).sum =
      (l.countP fun a => decide (key a ∈ ks) && q a : Nat) := by
  induction ks with
  | nil =>
    have hz : (l.countP fun a => decide (key a ∈ ([] : List κ)) && q a) = 0 := by
      simp
    rw [hz]
    rfl
  | cons k ks ih =>
    obtain ⟨hk, hks⟩ := nodup_cons.mp hn
    rw [map_cons, sum_cons, ih hks, countP_mem_cons key hk, Int.natCast_add]

def patched (patches : List (α × α)) (l : List α) : List α :=
  l.map fun a => ((patches.find? fun e => key e.1 == key a).map Prod.snd).getD a

section
variable {patches : List (α × α)} {l : List α} (hn : (l.map key).Nodup)
  (hsource : ∀ e ∈ patches, e.1 ∈ l)
include hn hsource

theorem patched_cases (ha : a ∈ l) :
    ∃ b ∈ patched key patches l, b = ((patches.find? fun e => key e.1 == key a).map
      Prod.snd).getD a ∧ ((a, b) ∈ patches ∨ (b = a ∧ ∀ e ∈ patches, e.1 ≠ a)) := by
  refine ⟨_, mem_map_of_mem ha, rfl, ?_⟩
  cases hf : patches.find? fun e => key e.1 == key a with
  | none =>
    right
    refine ⟨rfl, ?_⟩
    intro e he hea
    rw [find?_eq_none] at hf
    exact hf e he (by rw [hea, beq_self_eq_true])
  | some e =>
    left
    have he := mem_of_find?_eq_some hf
    have hkey : key e.1 = key a := by simpa using find?_some hf
    have hea : e.1 = a := inj_on_of_nodup_map hn (hsource e he) ha hkey
    rw [← hea]
    exact he

theorem mem_patched {b : α} (hb : b ∈ patched key patches l) :
    (∃ a, (a, b) ∈ patches) ∨ (b ∈ l ∧ ∀ e ∈ patches, e.1 ≠ b) := by
  obtain ⟨a, ha, rfl⟩ := mem_map.mp hb
  obtain ⟨_, -, rfl, hp | ⟨he, hno⟩⟩ := patched_cases key hn hsource ha
  · exact .inl ⟨a, hp⟩
  · rw [he]
    exact .inr ⟨ha, hno⟩

theorem exists_mem_patched (ha : a ∈ l) :
    ∃ b ∈ patched key patches l, (a, b) ∈ patches ∨ (b = a ∧ ∀ e ∈ patches, e.1 ≠ a) := by
  obtain ⟨b, hb, -, hcases⟩ := patched_cases key hn hsource ha
  exact ⟨b, hb, hcases⟩

end
end

section
variable {κ β : Type} [DecidableEq κ]

theorem mem_of_lookup {l : List (κ × β)} {k : κ} {b : β} (h : l.lookup k = some b) :
    (k, b) ∈ l := by
  induction l with
  | nil => cases h
  | cons e rest ih =>
    rw [lookup_cons] at h
    split at h
    · rename_i he
      rw [beq_iff_eq] at he
      cases h
      rw [he]
      exact mem_cons_self
    · exact mem_cons_of_mem _ (ih h)

theorem lookup_of_mem {l : List (κ × β)} (hn : (l.map Prod.fst).Nodup) {e : κ × β}
    (he : e ∈ l) : l.lookup e.1 = some e.2 := by
  induction l with
  | nil => cases he
  | cons d rest ih =>
    rw [map_cons, nodup_cons] at hn
    rcases mem_cons.mp he with rfl | hm
    · rw [lookup_cons, beq_self_eq_true]
    have hne : (e.1 == d.1) = false := by
      rw [beq_eq_false_iff_ne]
      intro heq
      exact hn.1 (heq ▸ mem_map_of_mem hm)
    rw [lookup_cons, hne]
    exact ih hn.2 hm

theorem lookup_filterMap (ks : List κ) (f : κ → Option β) (k : κ) :
    (ks.filterMap fun k => (f k).map fun b => (k, b)).lookup k =
      if k ∈ ks then f k else none := by
  induction ks with
  | nil => rfl
  | cons k' rest ih =>
    rw [filterMap_cons]
    by_cases hk : k = k'
    · subst hk
      cases hf : f k with
      | none =>
        simp [ih, hf]
      | some b =>
        simp
    have hne : (k == k') = false := by
      rw [beq_eq_false_iff_ne]
      exact hk
    cases hf : f k' with
    | none => simp [ih, hk]
    | some b =>
      simp [lookup_cons, hne, ih, hk]

end

end Zoomies
