import Mathlib.Data.List.Induction
import Mathlib.Order.Lattice

/-! Choosing from a list with one pass and a comparison, keeping the first of equals. -/
namespace Zoomies
open List

section
variable {α : Type} (better : α → α → Bool)

def keepBetter (best : Option α) (x : α) : Option α :=
  match best with
  | none => some x
  | some b => if better x b then some x else some b

def bestChoice (l : List α) : Option α := l.foldl (keepBetter better) none

theorem keepBetter_isSome (best : Option α) (x : α) : (keepBetter better best x).isSome := by
  unfold keepBetter
  split
  · rfl
  · split <;> rfl

theorem foldl_keepBetter_isSome (l : List α) (best : Option α) (h : best.isSome) :
    (l.foldl (keepBetter better) best).isSome := by
  induction l generalizing best with
  | nil => exact h
  | cons x xs ih => exact ih _ (keepBetter_isSome better best x)

variable {better}

theorem bestChoice_eq_none_iff {l : List α} : bestChoice better l = none ↔ l = [] := by
  constructor
  · intro h
    cases l with
    | nil => rfl
    | cons x xs =>
      have hs := foldl_keepBetter_isSome better xs _ (keepBetter_isSome better none x)
      rw [bestChoice, foldl_cons] at h
      rw [h] at hs
      exact absurd hs (by simp)
  · rintro rfl
    rfl

theorem foldl_keepBetter_mem {l : List α} (best : Option α) {x : α}
    (h : l.foldl (keepBetter better) best = some x) : x ∈ l ∨ best = some x := by
  induction l generalizing best with
  | nil => exact .inr h
  | cons y ys ih =>
    rcases ih _ h with hm | hk
    · exact .inl (mem_cons_of_mem y hm)
    -- what was kept at this step is either the new element or the old one
    unfold keepBetter at hk
    split at hk
    · exact .inl (Option.some.inj hk ▸ mem_cons_self)
    split at hk
    · exact .inl (Option.some.inj hk ▸ mem_cons_self)
    · exact .inr hk

theorem bestChoice_mem {l : List α} {x : α} (h : bestChoice better l = some x) : x ∈ l := by
  rcases foldl_keepBetter_mem none h with hm | hn
  · exact hm
  · cases hn

end

section
variable {α : Type} (better : α → α → Bool)

def NeverLost (l : List α) : Prop :=
  -- `k` is held once `a` has been seen, and the climb `ys` from it ends at nothing that `a` beats
  ∀ k a ys, (k = a ∧ a :: ys <+ l ∨ better a k = false ∧ k :: a :: ys <+ l) →
    IsChain (fun x y => better y x = true) (k :: ys) → better a (ys.getLastD k) = false

variable {better}

theorem foldl_keepBetter_climb {k : α} {ys : List α}
    (h : IsChain (fun x y => better y x = true) (k :: ys)) :
    ys.foldl (keepBetter better) (some k) = some (ys.getLastD k) := by
  induction ys generalizing k with
  | nil => rfl
  | cons y ys ih =>
    obtain ⟨hy, hrest⟩ := isChain_cons_cons.mp h
    rw [foldl_cons, keepBetter, if_pos hy, ih hrest, getLastD_cons]

theorem foldl_keepBetter_some (k : α) (l : List α) : ∃ ys, ys <+ l ∧
    IsChain (fun x y => better y x = true) (k :: ys) ∧
      l.foldl (keepBetter better) (some k) = some (ys.getLastD k) := by
  induction l generalizing k with
  | nil => exact ⟨[], Sublist.refl [], .singleton k, rfl⟩
  | cons y l ih =>
    rw [foldl_cons, keepBetter]
    by_cases hy : better y k = true
    · obtain ⟨ys, hsub, hchain, hlast⟩ := ih y
      refine ⟨y :: ys, hsub.cons_cons y, isChain_cons_cons.mpr ⟨hy, hchain⟩, ?_⟩
      rw [if_pos hy, hlast, getLastD_cons]
    · obtain ⟨ys, hsub, hchain, hlast⟩ := ih k
      exact ⟨ys, hsub.cons y, hchain, by rw [if_neg hy, hlast]⟩

/-- One pass ends at an unbeaten element of every part of the list just where no climb gets lost. -/
theorem bestChoice_best_iff {l : List α} :
    (∀ s, s <+ l → ∀ b, bestChoice better s = some b → ∀ x ∈ s, better x b = false) ↔
      NeverLost better l := by
  constructor
  · rintro h k a ys (⟨rfl, hsub⟩ | ⟨hpassed, hsub⟩) hchain
    · exact h _ hsub _ (foldl_keepBetter_climb hchain) k mem_cons_self
    · refine h _ hsub _ ?_ a (mem_cons_of_mem k mem_cons_self)
      rw [bestChoice, foldl_cons, foldl_cons, keepBetter, keepBetter, if_neg (by rw [hpassed]; nofun)]
      exact foldl_keepBetter_climb hchain
  intro h s hs b hb a ha
  -- split at `a`: what is held before it, then the climb through what follows
  obtain ⟨pre, post, rfl⟩ := append_of_mem ha
  rw [bestChoice, foldl_append, foldl_cons] at hb
  change post.foldl (keepBetter better) (keepBetter better (bestChoice better pre) a) = some b at hb
  have htaken : post.foldl (keepBetter better) (some a) = some b → better a b = false := by
    intro hb
    obtain ⟨ys, hys, hchain, hlast⟩ := @foldl_keepBetter_some _ better a post
    rw [hlast] at hb
    cases hb
    exact h a a ys (.inl ⟨rfl, ((hys.cons_cons a).trans (sublist_append_right pre _)).trans hs⟩) hchain
  cases hk : bestChoice better pre with
  | none => exact htaken (by rwa [hk] at hb)
  | some k =>
    rw [hk, keepBetter] at hb
    by_cases hak : better a k = true
    · exact htaken (by rwa [if_pos hak] at hb)
    rw [if_neg hak] at hb
    obtain ⟨ys, hys, hchain, hlast⟩ := @foldl_keepBetter_some _ better k post
    rw [hlast] at hb
    cases hb
    have hsub : k :: a :: ys <+ pre ++ a :: post :=
      (singleton_sublist.mpr (bestChoice_mem hk)).append (hys.cons_cons a)
    exact h k a ys (.inr ⟨(Bool.not_eq_true _).mp hak, hsub.trans hs⟩) hchain

/-- Where the comparison is transitive a climb beats all that it has passed. -/
theorem NeverLost.of_trans {l : List α} (hirrefl : ∀ x ∈ l, better x x = false)
    (htrans : ∀ x ∈ l, ∀ y ∈ l, ∀ z ∈ l, better x y = true → better y z = true →
      better x z = true) : NeverLost better l := by
  have hdown : ∀ (ys : List α) (k : α), (∀ y ∈ k :: ys, y ∈ l) →
      IsChain (fun x y => better y x = true) (k :: ys) → ∀ a ∈ l,
        better a (ys.getLastD k) = true → better a k = true := by
    intro ys
    induction ys with
    | nil => exact fun k _ _ a _ hbeats => hbeats
    | cons y ys ih =>
      intro k hmem hchain a ha hbeats
      obtain ⟨hy, hrest⟩ := isChain_cons_cons.mp hchain
      rw [getLastD_cons] at hbeats
      have hay := ih y (fun z hz => hmem z (mem_cons_of_mem k hz)) hrest a ha hbeats
      exact htrans a ha y (hmem y (by simp)) k (hmem k mem_cons_self) hay hy
  intro k a ys hheld hchain
  have hstart : better a k = false ∧ a ∈ l ∧ ∀ y ∈ k :: ys, y ∈ l := by
    rcases hheld with ⟨rfl, hsub⟩ | ⟨hpassed, hsub⟩
    · exact ⟨hirrefl k (hsub.subset mem_cons_self), hsub.subset mem_cons_self, fun _ hy => hsub.subset hy⟩
    · have hclimb := ((sublist_cons_self a ys).cons_cons k).trans hsub
      exact ⟨hpassed, hsub.subset (by simp), fun _ hy => hclimb.subset hy⟩
  rw [← Bool.not_eq_true]
  intro hbeats
  have hback := hdown ys k hstart.2.2 hchain a hstart.2.1 hbeats
  rw [hstart.1] at hback
  cases hback

end

section
variable {α : Type} {l : List α}

structure Tiers (l : List α) (before : α → α → Prop) : Prop where
  asymm : ∀ a ∈ l, ∀ b ∈ l, before a b → ¬ before b a
  split : ∀ a ∈ l, ∀ b ∈ l, ∀ c ∈ l, before a c → before a b ∨ before b c

variable {b a : α}

theorem Tiers.trans {before : α → α → Prop} (h : Tiers l before) {c : α} (ha : a ∈ l) (hb : b ∈ l)
    (hc : c ∈ l) (hab : before a b) (hbc : before b c) : before a c :=
  (h.split a ha c hc b hb hab).resolve_right (h.asymm b hb c hc hbc)

theorem Tiers.key {β : Type} [LinearOrder β] (f : α → β) : Tiers l fun a b => f a < f b :=
  ⟨fun _ _ _ _ h => h.asymm, fun _ _ b _ _ _ h => (lt_or_ge _ (f b)).imp_right fun hle => hle.trans_lt h⟩

def lexBefore (first second : α → α → Prop) (a b : α) : Prop :=
  first a b ∨ ¬ first b a ∧ second a b

variable {first second : α → α → Prop}

theorem lexBefore_of_tie (h : ¬ first a b) (h' : ¬ first b a) :
    lexBefore first second a b ↔ second a b :=
  ⟨fun hlex => (hlex.resolve_left h).2, fun hsecond => .inr ⟨h', hsecond⟩⟩

theorem not_lexBefore (h : ¬ first a b) (h' : first b a) : ¬ lexBefore first second a b :=
  fun hlex => (hlex.resolve_left h).1 h'

theorem Tiers.lex (h : Tiers l first) (h' : Tiers l second) : Tiers l (lexBefore first second) where
  asymm a ha b hb hab hba := by
    rcases hab with hab | ⟨hnot, hab⟩
    · rcases hba with hba | ⟨hnot, -⟩
      · exact h.asymm a ha b hb hab hba
      · exact hnot hab
    rcases hba with hba | ⟨-, hba⟩
    · exact hnot hba
    · exact h'.asymm a ha b hb hab hba
  split a ha b hb c hc hac := by
    by_cases hab : first a b
    · exact .inl (.inl hab)
    by_cases hbc : first b c
    · exact .inr (.inl hbc)
    rcases hac with hac | ⟨hnot, hac⟩
    · exact absurd (h.split a ha b hb c hc hac) (not_or.mpr ⟨hab, hbc⟩)
    -- neither neighbour is set apart from the middle one, or the two would be from each other
    have hba : ¬ first b a := fun hba =>
      (h.split b hb c hc a ha hba).elim hbc hnot
    have hcb : ¬ first c b := fun hcb => (h.split c hc a ha b hb hcb).elim hnot hab
    exact (h'.split a ha b hb c hc hac).imp (fun hab => .inr ⟨hba, hab⟩) fun hbc => .inr ⟨hcb, hbc⟩

end

end Zoomies
