import Mathlib.Data.List.Basic
import Zoomies.KeyedList
import Mathlib.Algebra.BigOperators.Group.List.Basic
import Mathlib.Tactic.Abel

/-! A table of rows with a key column, transactions on it that leave it alone when they fail, and
amendments of the row under a key. -/
namespace Zoomies
open List

section
section
variable {α κ : Type} [DecidableEq κ] (key : α → κ)

def rowAt (k : κ) (t : List α) : Option α := t.find? fun r => key r == k

def setAt (k : κ) (f : α → α) (t : List α) : List α :=
  t.map fun r => if key r = k then f r else r

variable {key}

theorem key_of_rowAt {k : κ} {t : List α} (r : α) (h : rowAt key k t = some r) : key r = k := by
  have hk := find?_some h
  exact beq_iff_eq.mp hk

theorem mem_of_rowAt {k : κ} {t : List α} {r : α} (h : rowAt key k t = some r) : r ∈ t :=
  mem_of_find?_eq_some h

theorem rowAt_setAt {k : κ} {f : α → α} (hf : ∀ r, key (f r) = key r) (j : κ) (t : List α) :
    rowAt key j (setAt key k f t) = (rowAt key j t).map fun r => if j = k then f r else r := by
  induction t with
  | nil => rfl
  | cons r rest ih =>
    have hkey : key (if key r = k then f r else r) = key r := by
      split
      · exact hf r
      · rfl
    change (setAt key k f (r :: rest)).find? _ = _
    rw [setAt, map_cons]
    by_cases hj : key r = j
    · subst hj
      rw [find?_cons_of_pos (by rw [hkey, beq_self_eq_true]), rowAt,
        find?_cons_of_pos (by rw [beq_self_eq_true]), Option.map_some]
    rw [find?_cons_of_neg (by rw [hkey]; simpa using hj), rowAt,
      find?_cons_of_neg (by simpa using hj)]
    exact ih

theorem rowAt_append (j : κ) (t : List α) (r : α) :
    rowAt key j (t ++ [r]) = (rowAt key j t).or (if key r = j then some r else none) := by
  rw [rowAt, find?_append]
  congr 1
  by_cases hj : key r = j
  · rw [find?_cons_of_pos (by simpa using hj), if_pos hj]
  · rw [find?_cons_of_neg (by simpa using hj), if_neg hj, find?_nil]

end

section
variable {σ ε β : Type}

def transact (commit : Option ε) (s : σ) (body : Except ε (σ × β)) : σ × Except ε β :=
  match body, commit with
  | .error e, _ => (s, .error e)
  | .ok _, some e => (s, .error e)
  | .ok (s', b), none => (s', .ok b)

theorem transact_cases {commit : Option ε} {s : σ} {body : Except ε (σ × β)} :
    (∃ e, transact commit s body = (s, .error e)) ∨
      ∃ s' b, body = .ok (s', b) ∧ transact commit s body = (s', .ok b) := by
  cases body with
  | error e => exact .inl ⟨e, rfl⟩
  | ok p =>
    cases commit with
    | some e => exact .inl ⟨e, rfl⟩
    | none => exact .inr ⟨p.1, p.2, rfl, rfl⟩

end

variable {α κ γ : Type} [DecidableEq κ] (key : α → κ) (under : γ → κ) (f : Option α → γ → α)

def amend : List α → γ → List α
  | [], c => [f none c]
  | r :: rest, c => if key r = under c then f (some r) c :: rest else r :: amend rest c

variable (hf : ∀ o c, (∀ r, o = some r → key r = under c) → key (f o c) = under c)

theorem rowAt_cons (k : κ) (r : α) (t : List α) :
    rowAt key k (r :: t) = if key r = k then some r else rowAt key k t := by
  by_cases h : key r = k
  · rw [rowAt, find?_cons_of_pos (by simpa using h), if_pos h]
  · rw [rowAt, find?_cons_of_neg (by simpa using h), if_neg h, rowAt]

variable {l : List γ}

theorem filter_of_nodup (hn : (l.map under).Nodup) (k : κ) :
    (l.filter fun c => under c = k) = (rowAt under k l).toList := by
  induction l with
  | nil => rfl
  | cons c rest ih =>
    rw [map_cons, nodup_cons] at hn
    rw [rowAt_cons]
    by_cases hc : under c = k
    · have hnone : (rest.filter fun c => under c = k) = [] := by
        rw [filter_eq_nil_iff]
        intro d hd hdk
        have hdk : under d = k := by simpa using hdk
        exact hn.1 (hc ▸ hdk ▸ mem_map_of_mem hd)
      rw [filter_cons_of_pos (by simpa using hc), hnone, if_pos hc]
      rfl
    · rw [filter_cons_of_neg (by simpa using hc), ih hn.2, if_neg hc]

include hf

omit [DecidableEq κ] in
theorem key_none (c : γ) : key (f none c) = under c := hf none c fun _ h => by cases h

omit [DecidableEq κ] in
theorem key_some {r : α} {c : γ} (hr : key r = under c) : key (f (some r) c) = under c :=
  hf (some r) c fun _ h => Option.some.inj h ▸ hr

theorem rowAt_amend (t : List α) (c : γ) (k : κ) : rowAt key k (amend key under f t c) =
      if under c = k then some (f (rowAt key k t) c) else rowAt key k t := by
  induction t with
  | nil =>
    rw [amend, rowAt_cons, key_none key under f hf]
    rfl
  | cons r rest ih =>
    rw [amend]
    by_cases hr : key r = under c
    · rw [if_pos hr, rowAt_cons, rowAt_cons, key_some key under f hf hr, hr]
      split_ifs
      · rfl
      · rfl
    rw [if_neg hr, rowAt_cons, rowAt_cons, ih]
    by_cases hk : key r = k
    · have hne : under c ≠ k := fun h => hr (hk.trans h.symm)
      rw [if_pos hk, if_neg hne, if_pos hk]
    · rw [if_neg hk, if_neg hk]

theorem rowAt_foldl_amend (l : List γ) (t : List α) (k : κ) :
    rowAt key k (l.foldl (amend key under f) t) =
      (l.filter fun c => under c = k).foldl (fun o c => some (f o c)) (rowAt key k t) := by
  induction l generalizing t with
  | nil => rfl
  | cons c rest ih =>
    rw [foldl_cons, ih, rowAt_amend key under f hf]
    by_cases hc : under c = k
    · rw [if_pos hc, filter_cons_of_pos (by simpa using hc), foldl_cons]
    · rw [if_neg hc, filter_cons_of_neg (by simpa using hc)]

variable {under}

theorem rowAt_foldl_amend_of_nodup (hn : (l.map under).Nodup) (t : List α) (k : κ) :
    rowAt key k (l.foldl (amend key under f) t) =
      match rowAt under k l with
      | none => rowAt key k t
      | some c => some (f (rowAt key k t) c) := by
  rw [rowAt_foldl_amend key under f hf, filter_of_nodup under hn]
  cases rowAt under k l with
  | none => rfl
  | some c => rfl

theorem map_key_amend (t : List α) (c : γ) : (amend key under f t c).map key =
      if under c ∈ t.map key then t.map key else t.map key ++ [under c] := by
  induction t with
  | nil => simp [amend, key_none key under f hf]
  | cons r rest ih =>
    rw [amend]
    by_cases hr : key r = under c
    · rw [if_pos hr, map_cons, map_cons, key_some key under f hf hr, hr, if_pos mem_cons_self]
    rw [if_neg hr, map_cons, map_cons, ih]
    have hmem : under c ∈ key r :: rest.map key ↔ under c ∈ rest.map key := by
      rw [mem_cons]
      exact or_iff_right fun h => hr h.symm
    by_cases hc : under c ∈ rest.map key
    · rw [if_pos hc, if_pos (hmem.mpr hc)]
    · rw [if_neg hc, if_neg fun h => hc (hmem.mp h), cons_append]

theorem nodup_amend {t : List α} {c : γ} (h : (t.map key).Nodup) :
    ((amend key under f t c).map key).Nodup := by
  rw [map_key_amend key f hf]
  split_ifs with hc
  · exact h
  · exact nodup_append.mpr ⟨h, nodup_singleton _, fun a ha b hb hab =>
      hc (mem_singleton.mp hb ▸ hab ▸ ha)⟩

theorem nodup_foldl_amend (t : List α) (h : (t.map key).Nodup) :
    ((l.foldl (amend key under f) t).map key).Nodup := by
  induction l generalizing t with
  | nil => exact h
  | cons c rest ih => exact ih _ (nodup_amend key f hf h)

theorem key_mem_foldl_amend (t : List α) :
    ∀ k ∈ (l.foldl (amend key under f) t).map key, k ∈ t.map key ∨ k ∈ l.map under := by
  induction l generalizing t with
  | nil => exact fun k hk => .inl hk
  | cons c rest ih =>
    intro k hk
    rcases ih _ k hk with h | h
    · rw [map_key_amend key f hf] at h
      split_ifs at h with hc
      · exact .inl h
      rcases mem_append.mp h with h | h
      · exact .inl h
      · exact .inr (mem_singleton.mp h ▸ mem_cons_self)
    · exact .inr (mem_cons_of_mem _ h)

omit hf

theorem sum_amend {M : Type} [AddCommMonoid M] {φ : α → M} {ψ : γ → M}
    (hnone : ∀ c, φ (f none c) = ψ c) (hsome : ∀ r c, key r = under c → φ (f (some r) c) = φ r + ψ c)
    (t : List α) (c : γ) : ((amend key under f t c).map φ).sum = (t.map φ).sum + ψ c := by
  induction t with
  | nil => simp [amend, hnone]
  | cons r rest ih =>
    rw [amend]
    split_ifs with hr
    · rw [map_cons, map_cons, sum_cons, sum_cons, hsome r c hr, add_assoc,
        add_assoc, add_comm (ψ c)]
    · rw [map_cons, map_cons, sum_cons, sum_cons, ih, add_assoc]

theorem sum_foldl_amend {M : Type} [AddCommMonoid M] (φ : α → M) (ψ : γ → M)
    (hnone : ∀ c, φ (f none c) = ψ c) (hsome : ∀ r c, key r = under c → φ (f (some r) c) = φ r + ψ c)
    (l : List γ) (t : List α) :
    ((l.foldl (amend key under f) t).map φ).sum = (t.map φ).sum + (l.map ψ).sum := by
  induction l generalizing t with
  | nil => simp
  | cons c rest ih =>
    rw [foldl_cons, ih, sum_amend key f hnone hsome, map_cons, sum_cons, add_assoc]

omit f in
theorem sum_rowAt_comm {M : Type} [AddCommMonoid M] {as : List α} {bs : List γ}
    (ha : (as.map key).Nodup) (hb : (bs.map under).Nodup) (φ : γ → M) :
    (as.map fun a => ((rowAt under (key a) bs).map φ).getD 0).sum =
      ((bs.filter fun b => under b ∈ as.map key).map φ).sum := by
  have hfound : ∀ a, ((rowAt under (key a) bs).map φ).getD 0 =
      (bs.map fun b => if under b = key a then φ b else 0).sum := by
    intro a
    rw [← sum_map_filter, filter_of_nodup under hb]
    cases rowAt under (key a) bs with
    | none => rfl
    | some b => simp
  have hread : ∀ b, (as.map fun a => if under b = key a then φ b else 0).sum =
      if under b ∈ as.map key then φ b else 0 := by
    intro b
    rw [← sum_map_eq_of_nodup ha, map_map]
    rfl
  rw [map_congr_left fun a _ => hfound a, sum_map_comm, map_congr_left fun b _ => hread b,
    sum_map_filter]

end

section
variable {α κ M : Type} [AddCommGroup M] (key : α → κ)

variable {l : List α}

theorem sum_change (hn : (l.map key).Nodup) {a : α} (ha : a ∈ l) (f g : α → M)
    (h : ∀ b ∈ l, key b ≠ key a → g b = f b) : (l.map g).sum = (l.map f).sum + (g a - f a) := by
  induction l with
  | nil => cases ha
  | cons b rest ih =>
    rw [map_cons, nodup_cons] at hn
    rw [map_cons, map_cons, sum_cons, sum_cons]
    rcases mem_cons.mp ha with rfl | hrest
    · have hsame : rest.map g = rest.map f := by
        apply map_congr_left
        intro b hb
        refine h b (mem_cons_of_mem _ hb) fun he => hn.1 ?_
        rw [← he]
        exact mem_map_of_mem hb
      rw [hsame]
      abel
    · have hne : key b ≠ key a := fun he => hn.1 (he ▸ mem_map_of_mem hrest)
      rw [h b mem_cons_self hne, ih hn.2 hrest fun c hc => h c (mem_cons_of_mem _ hc)]
      abel

variable [DecidableEq κ]

theorem sum_setAt (hn : (l.map key).Nodup) {a : α} (ha : a ∈ l) (F : α → α) (f : α → M) :
    ((setAt key (key a) F l).map f).sum = (l.map f).sum + (f (F a) - f a) := by
  rw [setAt, map_map, sum_change key hn ha f]
  · rw [Function.comp, if_pos rfl]
  · intro b _ hne
    rw [Function.comp, if_neg hne]

theorem map_setAt_same {β : Type} (column : α → β) (l : List α) (k : κ) (F : α → α)
    (hF : ∀ a, column (F a) = column a) : (setAt key k F l).map column = l.map column := by
  rw [setAt, map_map]
  apply map_congr_left
  intro a _
  rw [Function.comp]
  split
  · exact hF a
  · rfl

theorem map_setAt {β : Type} (view : α → β) (key' : β → κ) (hkey : ∀ a, key' (view a) = key a)
    (l : List α) {k : κ} {F : α → α} (G : β → β) (hF : ∀ a, view (F a) = G (view a)) :
    (setAt key k F l).map view = setAt key' k G (l.map view) := by
  rw [setAt, setAt, map_map, map_map]
  apply map_congr_left
  intro a _
  rw [Function.comp, Function.comp, hkey]
  split
  · exact hF a
  · rfl

theorem setAt_middle (done rest : List α) (a : α) (F : α → α)
    (hn : ((done ++ a :: rest).map key).Nodup) :
    setAt key (key a) F (done ++ a :: rest) = done ++ F a :: rest := by
  rw [map_append, map_cons] at hn
  have hbefore : ∀ b ∈ done, key b ≠ key a := fun b hb he =>
    (nodup_append.mp hn).2.2 (key b) (mem_map_of_mem hb) (key a) mem_cons_self he
  have hafter : ∀ b ∈ rest, key b ≠ key a := fun b hb he =>
    (nodup_cons.mp (nodup_append.mp hn).2.1).1 (he ▸ mem_map_of_mem hb)
  have hsame : ∀ l : List α, (∀ b ∈ l, key b ≠ key a) →
      l.map (fun b => if key b = key a then F b else b) = l := by
    intro l hl
    conv_rhs => rw [← map_id l]
    apply map_congr_left
    intro b hb
    rw [if_neg (hl b hb), id]
  rw [setAt, map_append, map_cons, hsame done hbefore, hsame rest hafter, if_pos rfl]

theorem forall₂_setAt {R : α → α → Prop} (hR : ∀ a, R a a) {k : κ} {F : α → α}
    (hF : ∀ a ∈ l, key a = k → R a (F a)) : List.Forall₂ R l (setAt key k F l) := by
  rw [setAt, forall₂_map_right_iff, forall₂_same]
  intro a ha
  split
  · rename_i hk
    exact hF a ha hk
  · exact hR a

end

end Zoomies
