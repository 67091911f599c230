import Mathlib.Algebra.BigOperators.Group.List.Basic
import Mathlib.Tactic.Abel
import Mathlib.Algebra.Order.Group.Int.Sum
import Mathlib.Tactic.Linarith

/-! Accounts under a key: drawn on one entry at a time, first come first served, and cut to ceilings. -/
namespace Zoomies
open List

section
variable {κ M : Type} [DecidableEq κ] [AddCommGroup M]

def booked (book : List (κ × M)) (k : κ) : M :=
  ((book.filter fun e => e.1 = k).map Prod.snd).sum

def Balanced (opening balance : κ → M) (book : List (κ × M)) : Prop :=
  ∀ k, balance k + booked book k = opening k

@[simp] theorem booked_nil (k : κ) : booked ([] : List (κ × M)) k = 0 := rfl

theorem booked_append (book more : List (κ × M)) (k : κ) :
    booked (book ++ more) k = booked book k + booked more k := by
  simp [booked]

theorem booked_single (k : κ) (m : M) : booked [(k, m)] k = m := by
  simp [booked]

theorem booked_single_ne {k k' : κ} {m : M} (h : k ≠ k') : booked [(k, m)] k' = 0 := by
  simp [booked, h]

theorem booked_map {α : Type} (events : List α) (key : α → κ) (amount : α → M) (k : κ) :
    booked (events.map fun a => (key a, amount a)) k =
      ((events.filter fun a => key a = k).map amount).sum := by
  simp only [booked, List.filter_map, List.map_map]
  rfl

theorem balanced_opening {opening : κ → M} : Balanced opening opening [] := by
  intro k
  rw [booked_nil, add_zero]

theorem Balanced.draw (opening balance : κ → M) (book : List (κ × M)) (k : κ) (m : M)
    (hb : Balanced opening balance book) :
    Balanced opening (Function.update balance k (balance k - m)) (book ++ [(k, m)]) := by
  intro k'
  rw [booked_append, ← hb k']
  by_cases hk : k' = k
  · subst hk
    rw [Function.update_self, booked_single]
    abel
  · rw [Function.update_of_ne hk, booked_single_ne (Ne.symm hk), add_zero]

end

variable {α : Type} (key : α → String)

section
variable (amount : α → Int)

def ledgerOf (l : List α) : String → Int :=
  l.foldl (fun ledger a => Function.update ledger (key a) (amount a)) fun _ => 0

theorem ledgerOf_append_singleton (l : List α) (a : α) :
    ledgerOf key amount (l ++ [a]) = Function.update (ledgerOf key amount l) (key a) (amount a) := by
  rw [ledgerOf, foldl_append]
  rfl

theorem ledgerOf_of_not_mem {l : List α} {k : String} (hk : k ∉ l.map key) :
    ledgerOf key amount l k = 0 := by
  induction l using List.reverseRecOn with
  | nil => rfl
  | append_singleton l a ih =>
    rw [map_append, mem_append, not_or, map_singleton, mem_singleton] at hk
    rw [ledgerOf_append_singleton, Function.update_of_ne hk.2, ih hk.1]

theorem ledgerOf_append (l : List α) {m : List α} {k : String} (hk : k ∉ m.map key) :
    ledgerOf key amount (l ++ m) k = ledgerOf key amount l k := by
  induction m using List.reverseRecOn with
  | nil => rw [append_nil]
  | append_singleton m a ih =>
    rw [map_append, mem_append, not_or, map_singleton, mem_singleton] at hk
    rw [← append_assoc, ledgerOf_append_singleton, Function.update_of_ne hk.2, ih hk.1]

theorem ledgerOf_append_of_mem (l : List α) {m : List α} (hn : (m.map key).Nodup) {a : α} (ha : a ∈ m) :
    ledgerOf key amount (l ++ m) (key a) = amount a := by
  induction m using List.reverseRecOn with
  | nil => exact absurd ha not_mem_nil
  | append_singleton m b ih =>
    rw [← append_assoc, ledgerOf_append_singleton]
    rw [map_append, nodup_append'] at hn
    obtain ⟨hm, -, hd⟩ := hn
    rcases mem_append.mp ha with ham | hab
    · have hne : key a ≠ key b := by
        intro he
        exact hd (mem_map_of_mem ham) (he ▸ mem_map_of_mem (mem_singleton_self b))
      rw [Function.update_of_ne hne, ih hm ham]
    · rw [mem_singleton.mp hab, Function.update_self]

theorem ledgerOf_of_mem {l : List α} (hn : (l.map key).Nodup) {a : α} (ha : a ∈ l) :
    ledgerOf key amount l (key a) = amount a :=
  ledgerOf_append_of_mem key amount [] hn ha

end

variable {l : List α}

theorem foldl_spend (hn : (l.map key).Nodup) {amount : Int} (ledger : String → Int) {k : String} :
    l.foldl (fun ledger a => Function.update ledger (key a) (ledger (key a) - amount)) ledger k =
      if k ∈ l.map key then ledger k - amount else ledger k := by
  induction l generalizing ledger with
  | nil => rfl
  | cons a l ih =>
    rw [map_cons, nodup_cons] at hn
    rw [foldl_cons, ih hn.2, map_cons]
    by_cases hk : k = key a
    · rw [hk, if_neg hn.1, Function.update_self, if_pos mem_cons_self]
    · simp [hk]

structure Draw (α : Type) where
  short : Int
  left : String → Int
  used : List α

variable (eligible : α → Bool)

def drawStep (d : Draw α) (a : α) : Draw α :=
  if d.short ≤ 0 ∨ d.left (key a) ≤ 0 ∨ eligible a = false then d
  else
    let take := min (d.left (key a)) d.short
    { short := d.short - take
      left := Function.update d.left (key a) (d.left (key a) - take)
      used := d.used ++ [a] }

def draw (l : List α) (short : Int) (left : String → Int) : Draw α :=
  l.foldl (drawStep key eligible) ⟨short, left, []⟩

section

variable {d : Draw α}

variable {eligible}

theorem drawStep_of_short_nonpos {a : α} (h : d.short ≤ 0) : drawStep key eligible d a = d :=
  if_pos (.inl h)

theorem foldl_drawStep_of_short_nonpos (h : d.short ≤ 0) :
    l.foldl (drawStep key eligible) d = d := by
  induction l with
  | nil => rfl
  | cons a l ih => rw [foldl_cons, drawStep_of_short_nonpos key h, ih]

theorem foldl_drawStep_of_not_eligible (h : ∀ a ∈ l, eligible a = false) :
    l.foldl (drawStep key eligible) d = d := by
  induction l with
  | nil => rfl
  | cons a l ih =>
    have ha : drawStep key eligible d a = d :=
      if_pos (.inr (.inr (h a mem_cons_self)))
    rw [foldl_cons, ha, ih fun b hb => h b (mem_cons_of_mem a hb)]

variable {k : String}

theorem drawStep_left_of_ne {a : α} (hk : k ≠ key a) :
    (drawStep key eligible d a).left k = d.left k := by
  unfold drawStep
  split
  · rfl
  · exact Function.update_of_ne hk _ _

theorem foldl_drawStep_left (d : Draw α) (hk : k ∉ l.map key) :
    (l.foldl (drawStep key eligible) d).left k = d.left k := by
  induction l generalizing d with
  | nil => rfl
  | cons a l ih =>
    rw [map_cons, mem_cons, not_or] at hk
    rw [foldl_cons, ih _ hk.2, drawStep_left_of_ne key hk.1]

theorem foldl_drawStep_left_of_nonpos (d : Draw α) (hk : d.left k ≤ 0) :
    (l.foldl (drawStep key eligible) d).left k = d.left k := by
  induction l generalizing d with
  | nil => rfl
  | cons a l ih =>
    have hstep : (drawStep key eligible d a).left k = d.left k := by
      by_cases hka : k = key a
      · have hskip : drawStep key eligible d a = d := if_pos (.inr (.inl (hka ▸ hk)))
        rw [hskip]
      · exact drawStep_left_of_ne key hka
    rw [foldl_cons, ih _ (hstep ▸ hk), hstep]

theorem foldl_drawStep_congr (d e : Draw α) (hshort : d.short = e.short)
    {S : String → Prop} (hS : ∀ a ∈ l, S (key a)) (hleft : ∀ k, S k → d.left k = e.left k) :
    (l.foldl (drawStep key eligible) d).short = (l.foldl (drawStep key eligible) e).short ∧
    ∀ k, S k → (l.foldl (drawStep key eligible) d).left k =
      (l.foldl (drawStep key eligible) e).left k := by
  induction l generalizing d e with
  | nil => exact ⟨hshort, hleft⟩
  | cons a l ih =>
    have ha := hleft (key a) (hS a mem_cons_self)
    have hstep : (drawStep key eligible d a).short = (drawStep key eligible e a).short ∧
        ∀ k, S k → (drawStep key eligible d a).left k = (drawStep key eligible e a).left k := by
      unfold drawStep
      rw [hshort, ha]
      split
      · exact ⟨hshort, hleft⟩
      refine ⟨rfl, fun k hk => ?_⟩
      dsimp only
      by_cases hka : k = key a
      · rw [hka, Function.update_self, Function.update_self]
      · rw [Function.update_of_ne hka, Function.update_of_ne hka, hleft k hk]
    exact ih _ _ hstep.1 (fun b hb => hS b (mem_cons_of_mem a hb)) hstep.2

theorem foldl_drawStep_filter {keep : α → Bool} (hn : (l.map key).Nodup) (d : Draw α)
    (h : ∀ a ∈ l, keep a = false → eligible a = false ∨ d.left (key a) ≤ 0) :
    (l.filter keep).foldl (drawStep key eligible) d = l.foldl (drawStep key eligible) d := by
  induction l generalizing d with
  | nil => rfl
  | cons a l ih =>
    rw [map_cons, nodup_cons] at hn
    have hrest : ∀ b ∈ l, keep b = false →
        eligible b = false ∨ (drawStep key eligible d a).left (key b) ≤ 0 := by
      intro b hb hk
      have hne : key b ≠ key a := fun he => hn.1 (he ▸ mem_map_of_mem hb)
      rw [drawStep_left_of_ne key hne]
      exact h b (mem_cons_of_mem a hb) hk
    rw [foldl_cons]
    cases hk : keep a with
    | true => rw [filter_cons_of_pos hk, foldl_cons, ih hn.2 _ hrest]
    | false =>
      have hskip : drawStep key eligible d a = d := by
        rcases h a mem_cons_self hk with he | hl
        · exact if_pos (.inr (.inr he))
        · exact if_pos (.inr (.inl hl))
      rw [filter_cons_of_neg (by rw [hk]; exact Bool.false_ne_true), hskip]
      rw [hskip] at hrest
      exact ih hn.2 d hrest

theorem drawStep_of_eligible {a : α} (hshort : 0 ≤ d.short) (hleft : 0 ≤ d.left (key a))
    (he : eligible a = true) :
    (drawStep key eligible d a).short = d.short - min (d.left (key a)) d.short ∧
    (drawStep key eligible d a).left (key a) = d.left (key a) - min (d.left (key a)) d.short := by
  unfold drawStep
  split
  · rename_i hskip
    have hnothing : min (d.left (key a)) d.short = 0 := by
      rcases hskip with h | h | h
      · omega
      · omega
      · rw [he] at h
        exact absurd h.symm Bool.false_ne_true
    rw [hnothing, Int.sub_zero, Int.sub_zero]
    exact ⟨rfl, rfl⟩
  · exact ⟨rfl, Function.update_self _ _ _⟩

variable (own : α → Bool)

def heldBy (l : List α) (left : String → Int) : Int :=
  ((l.filter own).map fun a => left (key a)).sum

variable {key own}

theorem heldBy_congr {left left' : String → Int}
    (h : ∀ a ∈ l, own a = true → left (key a) = left' (key a)) :
    heldBy key own l left = heldBy key own l left' := by
  unfold heldBy
  congr 1
  apply map_congr_left
  intro a ha
  obtain ⟨hm, ho⟩ := mem_filter.mp ha
  exact h a hm ho

theorem heldBy_nonneg {left : String → Int} (h : ∀ a ∈ l, own a = true → 0 ≤ left (key a)) :
    0 ≤ heldBy key own l left := by
  apply sum_nonneg
  intro x hx
  obtain ⟨a, ha, rfl⟩ := mem_map.mp hx
  obtain ⟨hm, ho⟩ := mem_filter.mp ha
  exact h a hm ho

/-- With its own sources first, a draw takes from these alone. -/
theorem draw_from_own (hn : (l.map key).Nodup) (hel : ∀ a ∈ l, own a = true → eligible a = true)
    (hord : l.Pairwise fun a b => own b = true → eligible a = true → own a = true) (d : Draw α)
    (hshort : 0 ≤ d.short) (hleft : ∀ a ∈ l, own a = true → 0 ≤ d.left (key a))
    (hsum : d.short ≤ heldBy key own l d.left) : (l.foldl (drawStep key eligible) d).short = 0 ∧
    (∀ k, (∀ a ∈ l, own a = true → key a ≠ k) →
      (l.foldl (drawStep key eligible) d).left k = d.left k) ∧
    heldBy key own l (l.foldl (drawStep key eligible) d).left = heldBy key own l d.left - d.short ∧
    ∀ a ∈ l, own a = true → 0 ≤ (l.foldl (drawStep key eligible) d).left (key a) := by
  induction l generalizing d with
  | nil =>
    have hzero : d.short = 0 := le_antisymm hsum hshort
    exact ⟨hzero, fun _ _ => rfl, by rw [hzero, Int.sub_zero]; rfl, hleft⟩
  | cons a l ih =>
    rw [map_cons, nodup_cons] at hn
    rw [pairwise_cons] at hord
    have hrest : ∀ b ∈ l, key b ≠ key a := fun b hb he => hn.1 (he ▸ mem_map_of_mem hb)
    by_cases hzero : d.short = 0
    · rw [foldl_drawStep_of_short_nonpos key hzero.le]
      exact ⟨hzero, fun _ _ => rfl, by rw [hzero, Int.sub_zero], hleft⟩
    cases ha : own a with
    | false =>
      -- an eligible stranger is met only once the list holds nothing of one's own
      have hskip : drawStep key eligible d a = d := by
        cases he : eligible a with
        | false => exact if_pos (.inr (.inr he))
        | true =>
          have hnone : l.filter own = [] := by
            rw [filter_eq_nil_iff]
            intro b hb hob
            have hao := hord.1 b hb hob he
            rw [ha] at hao
            exact absurd hao Bool.false_ne_true
          rw [heldBy, filter_cons_of_neg (by rw [ha]; exact Bool.false_ne_true), hnone] at hsum
          exact absurd (le_antisymm hsum hshort) hzero
      have hheld : ∀ left, heldBy key own (a :: l) left = heldBy key own l left := by
        intro left
        rw [heldBy, filter_cons_of_neg (by rw [ha]; exact Bool.false_ne_true)]
        rfl
      rw [foldl_cons, hskip]
      rw [hheld] at hsum
      obtain ⟨h1, h2, h3, h4⟩ := ih hn.2 (fun b hb => hel b (mem_cons_of_mem a hb)) hord.2 d
        hshort (fun b hb => hleft b (mem_cons_of_mem a hb)) hsum
      refine ⟨h1, fun k hk => h2 k fun b hb => hk b (mem_cons_of_mem a hb), ?_, ?_⟩
      · rw [hheld, hheld, h3]
      intro b hb hob
      rcases mem_cons.mp hb with rfl | hm
      · rw [ha] at hob
        exact absurd hob Bool.false_ne_true
      · exact h4 b hm hob
    | true =>
      have hheld : ∀ left, heldBy key own (a :: l) left = left (key a) + heldBy key own l left := by
        intro left
        rw [heldBy, filter_cons_of_pos ha]
        rfl
      obtain ⟨hs1, hl1⟩ := drawStep_of_eligible key hshort
        (hleft a mem_cons_self ha) (hel a mem_cons_self ha)
      have hkeep : ∀ b ∈ l, (drawStep key eligible d a).left (key b) = d.left (key b) :=
        fun b hb => drawStep_left_of_ne key (hrest b hb)
      have hsame : heldBy key own l (drawStep key eligible d a).left = heldBy key own l d.left :=
        heldBy_congr fun b hb _ => hkeep b hb
      have hpos := heldBy_nonneg fun b hb => hleft b (mem_cons_of_mem a hb)
      rw [hheld] at hsum
      obtain ⟨h1, h2, h3, h4⟩ := ih hn.2 (fun b hb => hel b (mem_cons_of_mem a hb)) hord.2
        (drawStep key eligible d a) (by omega)
        (fun b hb hob => by rw [hkeep b hb]; exact hleft b (mem_cons_of_mem a hb) hob)
        (by omega)
      have hafter := h2 (key a) fun b hb _ => hrest b hb
      rw [foldl_cons]
      refine ⟨h1, ?_, ?_, ?_⟩
      · intro k hk
        have hka : k ≠ key a := fun he => hk a mem_cons_self ha he.symm
        rw [h2 k fun b hb => hk b (mem_cons_of_mem a hb), drawStep_left_of_ne key hka]
      · rw [hheld, hheld, h3, hafter, hsame, hl1, hs1]
        omega
      intro b hb hob
      rcases mem_cons.mp hb with rfl | hm
      · omega
      · exact h4 b hm hob

end

section

def cutTo (ask : Int) (rooms : List Int) : Int := rooms.foldl (fun c room => max (min c room) 0) ask

theorem le_cutTo_iff (ask : Int) {rooms : List Int} (hask : 0 ≤ ask) {x : Int} :
    x ≤ cutTo ask rooms ↔ x ≤ ask ∧ ∀ room ∈ rooms, x ≤ max room 0 := by
  induction rooms generalizing ask with
  | nil => simp [cutTo]
  | cons room rooms ih =>
    have hcut : 0 ≤ max (min ask room) 0 := le_max_right _ _
    have hstep := ih (max (min ask room) 0) hcut
    rw [cutTo, foldl_cons, ← cutTo, hstep, forall_mem_cons]
    constructor
    · rintro ⟨hx, hrest⟩
      exact ⟨by omega, by omega, hrest⟩
    · rintro ⟨hx, hroom, hrest⟩
      exact ⟨by omega, hrest⟩

theorem cutTo_nonneg {ask : Int} (rooms : List Int) (hask : 0 ≤ ask) : 0 ≤ cutTo ask rooms :=
  (le_cutTo_iff ask hask).mpr ⟨hask, fun _ _ => le_max_right _ _⟩

theorem cutTo_le {ask : Int} (rooms : List Int) (hask : 0 ≤ ask) : cutTo ask rooms ≤ ask :=
  ((le_cutTo_iff ask hask).mp le_rfl).1

theorem cutTo_le_room (ask : Int) (rooms : List Int) (hask : 0 ≤ ask) (room : Int)
    (hr : room ∈ rooms) : cutTo ask rooms ≤ max room 0 :=
  ((le_cutTo_iff ask hask).mp le_rfl).2 room hr

end

end Zoomies
