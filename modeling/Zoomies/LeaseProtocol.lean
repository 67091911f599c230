import Mathlib.Data.List.Basic
import Mathlib.Algebra.Order.Ring.Int

/-! A lease on one shared row, stamped by a clock that loses a little to rounding. The row changes
hands only once its stamp is older than the term and the rounding together, and then no two parties
are ever live at once. -/
namespace Zoomies

structure LeaseState (κ : Type) where
  now : Int
  row : Option (κ × Int)
  readings : κ → List Int

def LeaseState.live {κ : Type} (ttl : Int) (s : LeaseState κ) (k : κ) : Prop :=
  ∃ v ∈ s.readings k, s.now < v + ttl

section
variable {κ : Type} (ttl slack : Int)

def Leased (s : LeaseState κ) : Prop :=
  ∀ k v, v ∈ s.readings k → v ≤ s.now ∧
    ((∃ stamp, s.row = some (k, stamp) ∧ v ≤ stamp + slack) ∨ v + ttl ≤ s.now)

variable {s : LeaseState κ}

theorem row_of_live (hs : Leased ttl slack s) {k : κ} (hk : s.live ttl k) :
    ∃ stamp, s.row = some (k, stamp) := by
  obtain ⟨v, hv, hlive⟩ := hk
  rcases (hs k v hv).2 with ⟨stamp, hrow, _⟩ | hout
  · exact ⟨stamp, hrow⟩
  · omega

theorem live_unique (hs : Leased ttl slack s) {j k : κ} (hj : s.live ttl j) (hk : s.live ttl k) :
    j = k := by
  obtain ⟨stamp, hrow⟩ := row_of_live ttl slack hs hj
  obtain ⟨stamp', hrow'⟩ := row_of_live ttl slack hs hk
  rw [hrow, Option.some.injEq, Prod.mk.injEq] at hrow'
  exact hrow'.1

variable [DecidableEq κ]

inductive LeaseStep : LeaseState κ → LeaseState κ → Prop
  | pass (s : LeaseState κ) (later : Int) (h : s.now ≤ later) : LeaseStep s { s with now := later }
  | take (s : LeaseState κ) (k : κ) (stamp : Int) (vs : List Int)
      (hfree : ∀ other old, s.row = some (other, old) → other = k ∨ old + slack + ttl ≤ s.now)
      (hvs : ∀ v ∈ vs, v ≤ s.now) (hstamp : s.now ≤ stamp + slack) : LeaseStep s
        { s with
          row := some (k, stamp)
          readings := fun j => if j = k then vs else s.readings j }
  | drop (s : LeaseState κ) (k : κ) (stamp : Int) (hrow : s.row = some (k, stamp)) : LeaseStep s
        { s with
          row := none
          readings := fun j => if j = k then [] else s.readings j }
  | forget (s : LeaseState κ) (k : κ) (vs : List Int) (hvs : ∀ v ∈ vs, v ∈ s.readings k) :
      LeaseStep s { s with readings := fun j => if j = k then vs else s.readings j }

/-- Every step leaves each reading with the party the row names, or run out. -/
theorem leased_step {s' : LeaseState κ} (hs : Leased ttl slack s) (h : LeaseStep ttl slack s s') :
    Leased ttl slack s' := by
  intro k v hv
  cases h with
  | pass later hlater =>
    obtain ⟨hpast, hcase⟩ := hs k v hv
    refine ⟨hpast.trans hlater, ?_⟩
    rcases hcase with hheld | hout
    · exact .inl hheld
    · exact .inr (hout.trans hlater)
  | take taker stamp vs hfree hvs hstamp =>
    dsimp only at hv ⊢
    by_cases hk : k = taker
    · rw [if_pos hk] at hv
      have hpast := hvs v hv
      exact ⟨hpast, .inl ⟨stamp, by rw [hk], hpast.trans hstamp⟩⟩
    rw [if_neg hk] at hv
    obtain ⟨hpast, hcase⟩ := hs k v hv
    refine ⟨hpast, .inr ?_⟩
    rcases hcase with ⟨old, hrow, hle⟩ | hout
    · -- the row is taken from the party whose reading this is, so it has run out
      rcases hfree k old hrow with heq | hlate
      · exact absurd heq hk
      · omega
    · exact hout
  | drop holder stamp hrow =>
    dsimp only at hv ⊢
    by_cases hk : k = holder
    · rw [if_pos hk] at hv
      exact absurd hv List.not_mem_nil
    rw [if_neg hk] at hv
    obtain ⟨hpast, hcase⟩ := hs k v hv
    refine ⟨hpast, .inr ?_⟩
    rcases hcase with ⟨old, hother, _⟩ | hout
    · rw [hrow, Option.some.injEq, Prod.mk.injEq] at hother
      exact absurd hother.1.symm hk
    · exact hout
  | forget party vs hvs =>
    dsimp only at hv ⊢
    by_cases hk : k = party
    · rw [if_pos hk] at hv
      rw [hk]
      exact hs party v (hvs v hv)
    · rw [if_neg hk] at hv
      exact hs k v hv

end
end Zoomies
