import Mathlib.Data.List.Basic

/-! Programs that make atomic calls on a shared state, in any number and order, and the rule that
proves what holds in every run: a program counts on what the others leave alone. -/
namespace Zoomies

inductive Prog (Op : Type) (Ans : Op → Type) (ρ : Type) : Type
  | ret (x : ρ)
  | call (o : Op) (k : Ans o → Prog Op Ans ρ)

namespace Prog
variable {Op : Type} {Ans : Op → Type} {ρ ρ' : Type}

def bind : Prog Op Ans ρ → (ρ → Prog Op Ans ρ') → Prog Op Ans ρ'
  | ret x, f => f x
  | call o k, f => call o fun a => (k a).bind f

instance : Monad (Prog Op Ans) where
  pure := ret
  bind := bind

def ask (o : Op) : Prog Op Ans (Ans o) := call o ret

@[simp] theorem ret_bind (x : ρ) (f : ρ → Prog Op Ans ρ') : (ret x >>= f) = f x := rfl

@[simp] theorem call_bind (o : Op) (k : Ans o → Prog Op Ans ρ) (f : ρ → Prog Op Ans ρ') :
    (call o k >>= f) = call o fun a => k a >>= f := rfl

@[simp] theorem ask_bind (o : Op) (f : Ans o → Prog Op Ans ρ') : (ask o >>= f) = call o f := rfl

def next : Prog Op Ans ρ → Option Op
  | ret _ => none
  | call o _ => some o

end Prog

structure Running (Req Op : Type) (Ans : Op → Type) (ρ : Type) where
  request : Req
  rest : Prog Op Ans ρ

structure World (σ Req Op : Type) (Ans : Op → Type) (ρ : Type) where
  shared : σ
  procs : List (Running Req Op Ans ρ) := []

inductive Move (Req Env : Type)
  | spawn (q : Req)
  | step (i : Nat) (e : Env)

section
variable {σ Env Req Op : Type} {Ans : Op → Type} {ρ : Type}
variable (exec : σ → Env → Nat → (o : Op) → Option (σ × Ans o)) (prog : Req → Prog Op Ans ρ)

variable (w : World σ Req Op Ans ρ)

def World.spawn (q : Req) : World σ Req Op Ans ρ :=
  { w with procs := w.procs ++ [⟨q, prog q⟩] }

def World.step (i : Nat) (e : Env) : World σ Req Op Ans ρ :=
  match w.procs[i]? with
  | some ⟨q, .call o k⟩ =>
    match exec w.shared e i o with
    | some (s, a) => ⟨s, w.procs.set i ⟨q, k a⟩⟩
    | none => w
  | _ => w

def World.move : Move Req Env → World σ Req Op Ans ρ
  | .spawn q => w.spawn prog q
  | .step i e => w.step exec i e

def World.run (moves : List (Move Req Env)) : World σ Req Op Ans ρ :=
  moves.foldl (World.move exec prog) w

def World.next (w : World σ Req Op Ans ρ) (i : Nat) : Option Op :=
  w.procs[i]?.bind fun r => r.rest.next

variable (guard : World σ Req Op Ans ρ → Nat → Env → Op → Prop)

def World.Guarded : World σ Req Op Ans ρ → List (Move Req Env) → Prop
  | _, [] => True
  | w, .spawn q :: rest => (w.spawn prog q).Guarded rest
  | w, .step i e :: rest =>
    (∀ o, w.next i = some o → guard w i e o) ∧ (w.step exec i e).Guarded rest

def decidableNext (next : Option Op) (P : Op → Prop) [DecidablePred P] :
    Decidable (∀ o, next = some o → P o) :=
  match next with
  | none => isTrue fun _ h => absurd h (Option.some_ne_none _).symm
  | some o => decidable_of_iff (P o) ⟨fun h _ ho => Option.some.inj ho ▸ h, fun h => h o rfl⟩

instance World.decidableGuarded [∀ w i e o, Decidable (guard w i e o)] :
    (moves : List (Move Req Env)) → (w : World σ Req Op Ans ρ) →
    Decidable (w.Guarded exec prog guard moves)
  | [], _ => isTrue trivial
  | .spawn q :: rest, w => World.decidableGuarded rest (w.spawn prog q)
  | .step i e :: rest, w =>
    @instDecidableAnd _ _ (decidableNext (w.next i) (guard w i e))
      (World.decidableGuarded rest (w.step exec i e))

variable {exec prog guard}

theorem World.step_cases {w : World σ Req Op Ans ρ} {i : Nat} {e : Env} :
    w.step exec i e = w ∨ ∃ q o k s a, w.procs[i]? = some ⟨q, .call o k⟩ ∧
      exec w.shared e i o = some (s, a) ∧ w.step exec i e = ⟨s, w.procs.set i ⟨q, k a⟩⟩ := by
  unfold World.step
  cases hp : w.procs[i]? with
  | none => exact .inl rfl
  | some r =>
    obtain ⟨q, p⟩ := r
    cases p with
    | ret x => exact .inl rfl
    | call o k =>
      dsimp only
      cases he : exec w.shared e i o with
      | none => exact .inl rfl
      | some r => exact .inr ⟨q, o, k, r.1, r.2, rfl, he, rfl⟩

theorem World.spawn_cases {w : World σ Req Op Ans ρ} {q : Req} {i : Nat} {r : Running Req Op Ans ρ}
    (hr : (w.spawn prog q).procs[i]? = some r) :
    w.procs[i]? = some r ∨ i = w.procs.length ∧ r = ⟨q, prog q⟩ := by
  rcases Nat.lt_or_ge i w.procs.length with hi | hi
  · exact .inl ((List.getElem?_append_left hi).symm.trans hr)
  have hr' : [(⟨q, prog q⟩ : Running Req Op Ans ρ)][i - w.procs.length]? = some r :=
    (List.getElem?_append_right hi).symm.trans hr
  have hlt : i - w.procs.length < 1 := (List.getElem?_eq_some_iff.mp hr').1
  exact .inr ⟨by omega, List.mem_singleton.mp (List.mem_of_getElem? hr')⟩

theorem World.set_cases {procs : List (Running Req Op Ans ρ)} {i : Nat} {r : Running Req Op Ans ρ}
    {j : Nat} {r' : Running Req Op Ans ρ} (hj : (procs.set i r)[j]? = some r') :
    i = j ∧ r' = r ∨ j ≠ i ∧ procs[j]? = some r' := by
  by_cases hij : i = j
  · subst hij
    have hlt : i < (procs.set i r).length := (List.getElem?_eq_some_iff.mp hj).1
    rw [List.length_set] at hlt
    exact .inl ⟨rfl, Option.some.inj (hj.symm.trans (List.getElem?_set_self hlt))⟩
  · exact .inr ⟨fun h => hij h.symm, (List.getElem?_set_ne hij).symm.trans hj⟩

theorem World.guarded_append (w : World σ Req Op Ans ρ) {moves rest : List (Move Req Env)} :
    w.Guarded exec prog guard (moves ++ rest) ↔ w.Guarded exec prog guard moves ∧
      (w.run exec prog moves).Guarded exec prog guard rest := by
  induction moves generalizing w with
  | nil => exact ⟨fun h => ⟨trivial, h⟩, fun h => h.2⟩
  | cons m moves ih =>
    cases m with
    | spawn q => exact ih _
    | step i e => exact (and_congr_right fun _ => ih _).trans and_assoc.symm

theorem World.run_induction (J : World σ Req Op Ans ρ → Prop)
    (hspawn : ∀ w q, J w → J (w.spawn prog q))
    (hstep : ∀ w i e, J w → (∀ o, w.next i = some o → guard w i e o) → J (w.step exec i e))
    (w : World σ Req Op Ans ρ) (hw : J w) {moves : List (Move Req Env)}
    (hm : w.Guarded exec prog guard moves) : J (w.run exec prog moves) := by
  induction moves generalizing w with
  | nil => exact hw
  | cons m rest ih =>
    cases m with
    | spawn q => exact ih _ (hspawn w q hw) hm
    | step i e => exact ih _ (hstep w i e hw hm.1) hm.2

end

section
variable {Op : Type} {Ans : Op → Type} {ρ ρ' : Type}

structure Watch (Op : Type) (Ans : Op → Type) where
  State : Type
  may : State → Op → Prop
  after : State → (o : Op) → Ans o → State

variable (m : Watch Op Ans)

def Watch.Keeps (post : m.State → ρ → Prop) : m.State → Prog Op Ans ρ → Prop
  -- the program makes only calls the watch allows, whatever the answers, and returns what it should
  | s, .ret x => post s x
  | s, .call o k => m.may s o ∧ ∀ a, Watch.Keeps post (m.after s o a) (k a)

variable {m} {post : m.State → ρ → Prop} {s : m.State}

theorem Watch.Keeps.pure {x : ρ} (h : post s x) : m.Keeps post s (pure x) := h

theorem Watch.Keeps.ask {o : Op} {f : Ans o → Prog Op Ans ρ} (ho : m.may s o)
    (hf : ∀ a, m.Keeps post (m.after s o a) (f a)) : m.Keeps post s (Prog.ask o >>= f) :=
  ⟨ho, hf⟩

theorem Watch.Keeps.bind {post' : m.State → ρ' → Prop} {p : Prog Op Ans ρ}
    {f : ρ → Prog Op Ans ρ'} (hp : m.Keeps post s p)
    (hf : ∀ s x, post s x → m.Keeps post' s (f x)) : m.Keeps post' s (p >>= f) := by
  induction p generalizing s with
  | ret x => exact hf s x hp
  | call o k ih => exact ⟨hp.1, fun a => ih a (hp.2 a)⟩

/-- A watch that allows at least the calls of another is kept wherever that one is. -/
theorem Watch.Keeps.allowed {m' : Watch Op Ans} {s' : m'.State} {p : Prog Op Ans ρ}
    (hmay : ∀ s s' o, m.may s o → m'.may s' o) (hp : m.Keeps post s p) :
    m'.Keeps (fun _ _ => True) s' p := by
  induction p generalizing s s' with
  | ret x => trivial
  | call o k ih => exact ⟨hmay s s' o hp.1, fun a => ih a (hp.2 a)⟩

end

structure Rules (σ Env Op : Type) (Ans : Op → Type) where
  exec : σ → Env → Nat → (o : Op) → Option (σ × Ans o)
  guard : σ → Nat → Op → Prop := fun _ _ _ => True
  inv : σ → Prop
  rely : Nat → σ → σ → Prop
  fresh : Nat → σ → Prop := fun _ _ => True
  rely_refl : ∀ i s, rely i s s
  rely_trans : ∀ i s t u, rely i s t → rely i t u → rely i s u
  rely_fresh : ∀ i s t, rely i s t → fresh i s → fresh i t := by exact fun _ _ _ _ h => h

section
variable {σ Env Req Op : Type} {Ans : Op → Type} {ρ ρ' : Type} (R : Rules σ Env Op Ans)
variable (own : σ → σ → Prop) (i : Nat) (post : ρ → σ → Prop)

def Rules.Along : Prog Op Ans ρ → σ → Prop
  -- a program keeps to the rules whatever the others do between its calls
  | .ret x, s => ∀ t, R.rely i s t → R.inv t → post x t
  | .call o k, s => ∀ t e t' a, R.rely i s t → R.inv t → R.guard t i o →
      R.exec t e i o = some (t', a) →
      R.inv t' ∧ own t t' ∧ (∀ j, j ≠ i → R.rely j t t') ∧ Rules.Along (k a) t'

theorem Rules.Along.stable {p : Prog Op Ans ρ} {s t : σ} (h : R.Along own i post p s)
    (hst : R.rely i s t) : R.Along own i post p t := by
  cases p with
  | ret x => exact fun u htu hu => h u (R.rely_trans i s t u hst htu) hu
  | call o k => exact fun u e u' a htu => h u e u' a (R.rely_trans i s t u hst htu)

theorem Rules.Along.bind (post' : ρ' → σ → Prop) (p : Prog Op Ans ρ) (f : ρ → Prog Op Ans ρ')
    (s : σ) (hs : R.inv s) (h : R.Along own i post p s)
    (hf : ∀ x t, R.inv t → post x t → R.Along own i post' (f x) t) :
    R.Along own i post' (p >>= f) s := by
  induction p generalizing s with
  | ret x => exact hf x s hs (h s (R.rely_refl i s) hs)
  | call o k ih =>
    intro t e t' a hst ht hg he
    obtain ⟨hinv, hown, hleave, hrest⟩ := h t e t' a hst ht hg he
    exact ⟨hinv, hown, hleave, ih a t' hinv hrest⟩

theorem Rules.Along.weaken {post' : ρ → σ → Prop} (himp : ∀ x t, post x t → post' x t)
    {p : Prog Op Ans ρ} (s : σ) (h : R.Along own i post p s) : R.Along own i post' p s := by
  induction p generalizing s with
  | ret x => exact fun t hr ht => himp x t (h t hr ht)
  | call o k ih =>
    intro t e t' a hst ht hg he
    obtain ⟨hinv, hown, hleave, hrest⟩ := h t e t' a hst ht hg he
    exact ⟨hinv, hown, hleave, ih a t' hrest⟩

variable (owns : Req → σ → σ → Prop)

structure Rules.Keeping (w : World σ Req Op Ans ρ) : Prop where
  -- the rules hold of a whole world: the invariant, and every program keeps to them
  holds : R.inv w.shared
  along : ∀ i r, w.procs[i]? = some r → R.Along (owns r.request) i (fun _ _ => True) r.rest w.shared
  unused : ∀ i, w.procs.length ≤ i → R.fresh i w.shared

variable (prog : Req → Prog Op Ans ρ)
variable (hprog : ∀ i s q, R.inv s → R.fresh i s → R.Along (owns q) i (fun _ _ => True) (prog q) s)
include hprog

theorem Rules.Keeping.spawn (w : World σ Req Op Ans ρ) (h : R.Keeping owns w) (q : Req) :
    R.Keeping owns (w.spawn prog q) := by
  refine ⟨h.holds, fun i r hr => ?_, fun i hi => h.unused i ?_⟩
  · rcases World.spawn_cases hr with hold | ⟨hi, hnew⟩
    · exact h.along i r hold
    · rw [hnew]
      exact hprog i w.shared q h.holds (h.unused i (Nat.le_of_eq hi.symm))
  · have hlen : (w.spawn prog q).procs.length = w.procs.length + 1 := List.length_append
    omega

omit hprog in
theorem Rules.Keeping.step (w : World σ Req Op Ans ρ) (h : R.Keeping owns w) (i : Nat) (e : Env)
    (hguard : ∀ o, w.next i = some o → R.guard w.shared i o) :
    R.Keeping owns (w.step R.exec i e) ∧ ((w.step R.exec i e).shared = w.shared ∨
      ∃ r, w.procs[i]? = some r ∧ owns r.request w.shared (w.step R.exec i e).shared) := by
  rcases World.step_cases with hsame | ⟨q, o, k, s, a, hp, he, hstep⟩
  · rw [hsame]
    exact ⟨h, .inl rfl⟩
  have hlt : i < w.procs.length := (List.getElem?_eq_some_iff.mp hp).1
  have hnext : w.next i = some o := by
    rw [World.next, hp]
    rfl
  obtain ⟨hinv, hown, hleave, hrest⟩ := h.along i _ hp w.shared e s a
    (R.rely_refl i w.shared) h.holds (hguard o hnext) he
  rw [hstep]
  refine ⟨⟨hinv, fun j r hj => ?_, fun j hj => ?_⟩, .inr ⟨_, hp, hown⟩⟩
  · rcases World.set_cases hj with ⟨rfl, rfl⟩ | ⟨hne, hold⟩
    · exact hrest
    · exact Rules.Along.stable R _ j _ (h.along j r hold) (hleave j hne)
  rw [List.length_set] at hj
  have hne : j ≠ i := by omega
  exact R.rely_fresh j w.shared s (hleave j hne) (h.unused j hj)

theorem Rules.Keeping.run (w : World σ Req Op Ans ρ) (h : R.Keeping owns w)
    (moves : List (Move Req Env))
    (hm : w.Guarded R.exec prog (fun w i _ => R.guard w.shared i) moves) :
    R.Keeping owns (w.run R.exec prog moves) :=
  World.run_induction (R.Keeping owns)
    (fun w q h => Rules.Keeping.spawn R owns prog hprog w h q)
    (fun w i e h hg => (Rules.Keeping.step R owns w h i e hg).1) w h hm

end

end Zoomies
