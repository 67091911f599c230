import Zoomies.AuthTwoStep

/-! Two-step is turned on with the secret the code was matched against, as long as no enrolment
replaces it before the confirming write. -/
namespace Zoomies.Auth
open Zoomies.Go Zoomies.Store

def AccountTables.twoStepOn (s : AccountTables) : Bool :=
  s.twoStep.any fun r => r.enabledAt.isSome

def TwoStepCall.confirms : TwoStepCall → Bool
  | .confirmTwoStep _ _ _ => true
  | _ => false

def TwoStepCall.enrols : TwoStepCall → Bool
  | .beginTwoStep _ => true
  | _ => false

def noReplacement (w : TwoStepWorld) (i : Nat) (_ : Surroundings) (o : TwoStepCall) : Prop :=
  -- a new secret is stored only while no other request, its code matched, is about to turn two-step
  -- on
  o.enrols = true → ∀ j < w.procs.length, j ≠ i → (w.next j).any TwoStepCall.confirms = false

instance (w : TwoStepWorld) (i : Nat) (e : Surroundings) (o : TwoStepCall) :
    Decidable (noReplacement w i e o) :=
  inferInstanceAs (Decidable (_ → ∀ j < w.procs.length, _ → _))

section
variable (s s' : AccountTables) (e : Surroundings) {i : Nat}

theorem attempt_induct {α : Type} (P : AccountTables → Prop)
    {done : AccountTables × Except CallError α} (hs : P s) (hdone : P done.1) :
    P (e.attempt s done).1 := by
  unfold Surroundings.attempt
  cases e.error with
  | some text => exact hs
  | none => exact hdone

variable {now : Time} {step : Int}

theorem confirmTwoStep_cases {hashes : List String} : (s.confirmTwoStep now step hashes).1 = s ∨
      ∃ row codes, s.twoStep = some row ∧ row.enabledAt = none ∧
        (s.confirmTwoStep now step hashes).1 = { s with
          twoStep := some { row with enabledAt := some (ms now), lastStep := step }
          recoveryCodes := codes } := by
  unfold AccountTables.confirmTwoStep
  cases hrow : s.twoStep with
  | none => exact .inl rfl
  | some row =>
    dsimp only
    by_cases hpending : row.enabledAt = none
    · rw [if_pos hpending, AccountTables.replaceRecoveryCodes]
      by_cases hnodup : hashes.Nodup
      · rw [if_pos hnodup]
        exact .inr ⟨row, _, rfl, hpending, rfl⟩
      · rw [if_neg hnodup]
        exact .inl rfl
    · rw [if_neg hpending]
      exact .inl rfl

def EnrolmentMove (s : AccountTables) (o : TwoStepCall) (s' : AccountTables) : Prop :=
  s'.twoStep = s.twoStep ∨ s'.twoStep = none ∨
    (∃ secretEnc, o = .beginTwoStep secretEnc ∧ s'.twoStepOn = false) ∨
    (∃ step hashes proved row row', o = .confirmTwoStep step hashes proved ∧
      s.twoStep = some row ∧ row.enabledAt = none ∧ s'.twoStep = some row' ∧
      row'.enabledAt ≠ none ∧ row'.secretEnc = row.secretEnc) ∨
    ∃ row row', s.twoStep = some row ∧ row.enabledAt ≠ none ∧ s'.twoStep = some row' ∧
      row'.enabledAt ≠ none

variable {s s' e}

theorem beginTwoStep_moves {secretEnc : List UInt8} :
    EnrolmentMove s (.beginTwoStep secretEnc) (s.beginTwoStep now secretEnc).1 := by
  unfold AccountTables.beginTwoStep
  cases hrow : s.twoStep with
  | none => exact .inr (.inr (.inl ⟨secretEnc, rfl, rfl⟩))
  | some row =>
    dsimp only
    by_cases hpending : row.enabledAt = none
    · rw [if_pos hpending]
      refine .inr (.inr (.inl ⟨secretEnc, rfl, ?_⟩))
      rw [AccountTables.twoStepOn, Option.any_some, hpending]
      rfl
    · rw [if_neg hpending]
      exact .inl rfl

theorem confirmTwoStep_moves {hashes : List String}
    {proved : List UInt8} :
    EnrolmentMove s (.confirmTwoStep step hashes proved) (s.confirmTwoStep now step hashes).1 := by
  rcases confirmTwoStep_cases s with hs | ⟨row, codes, hrow, hp, hs⟩
  · exact .inl (congrArg _ hs)
  · exact .inr (.inr (.inr (.inl ⟨step, hashes, proved, row, _, rfl, hrow, hp,
      congrArg _ hs, Option.some_ne_none _, rfl⟩)))

theorem acceptTwoStepStep_moves {o : TwoStepCall} :
    EnrolmentMove s o (s.acceptTwoStepStep step).1 := by
  unfold AccountTables.acceptTwoStepStep
  cases hrow : s.twoStep with
  | none => exact .inl rfl
  | some row =>
    dsimp only
    by_cases hfresh : row.enabledAt ≠ none ∧ row.lastStep < step
    · rw [if_pos hfresh]
      exact .inr (.inr (.inr (.inr ⟨row, _, hrow, hfresh.1, rfl, hfresh.1⟩)))
    · rw [if_neg hfresh]
      exact .inl rfl

theorem exec_moves {o : TwoStepCall} {a : o.Reply} (h : s.exec e i o = some (s', a)) :
    EnrolmentMove s o s' := by
  have hsame (t : AccountTables) (ht : t.twoStep = s.twoStep) : EnrolmentMove s o t := .inl ht
  cases o with
  | beginTwoStep secretEnc =>
    cases h
    exact attempt_induct s e _ (hsame s rfl) beginTwoStep_moves
  | confirmTwoStep step hashes proved =>
    cases h
    exact attempt_induct s e _ (hsame s rfl) confirmTwoStep_moves
  | acceptTwoStepStep step =>
    cases h
    exact attempt_induct s e _ (hsame s rfl) acceptTwoStepStep_moves
  | deleteTwoStep =>
    cases h
    exact attempt_induct s e _ (hsame s rfl) (.inr (.inl rfl))
  | failSignInChallenge tokenHash =>
    cases h
    refine hsame _ ?_
    unfold AccountTables.failSignInChallenge
    dsimp only
    split <;> rfl
  | createSession session =>
    cases h
    refine attempt_induct s e _ (hsame s rfl) (hsame _ ?_)
    unfold AccountTables.createSession
    split <;> rfl
  | _ =>
    cases h
    exact attempt_induct s e _ (hsame s rfl) (hsame _ rfl)

theorem getTwoStep_ok {around : Around} {ts : TwoStep}
    (h : s.exec e i .getTwoStep = some (s', around, .ok ts)) :
    s' = s ∧ ∀ row, s.twoStep = some row → ts = row.scan := by
  obtain ⟨hs, hr⟩ := Prod.mk.inj (Option.some.inj h)
  have hr := (Prod.mk.inj hr).2
  unfold Surroundings.attempt at hs hr
  cases herr : e.error with
  | some text =>
    rw [herr] at hr
    cases hr
  | none =>
    rw [herr] at hs hr
    refine ⟨hs.symm, fun row hrow => ?_⟩
    dsimp only [AccountTables.getTwoStep] at hr
    rw [hrow] at hr
    exact (Except.ok.inj hr).symm

end

section
variable (cfg : AuthConfig)

def Awaited (w : TwoStepWorld) : Prop :=
  ∀ (i : Nat) (r : Running TwoStepRequest TwoStepCall TwoStepCall.Reply TwoStepOutcome),
    w.procs[i]? = some r → (∃ seen, Confirms cfg.ins r.request.code seen r.rest) ∧
    ∀ step hashes proved, r.rest.next = some (.confirmTwoStep step hashes proved) →
      (∃ now, Proves cfg.ins r.request.code proved now step) ∧
      ∀ row, w.shared.twoStep = some row → row.enabledAt = none → row.secretEnc = proved

theorem Awaited.spawn (w : TwoStepWorld) (h : Awaited cfg w) (q : TwoStepRequest) :
    Awaited cfg (w.spawn (TwoStepRequest.prog cfg) q) := by
  intro i r hr
  rcases World.spawn_cases hr with hold | ⟨_, hnew⟩
  · exact h i r hold
  subst hnew
  have hkeeps := q.prog_confirms cfg none
  refine ⟨⟨none, hkeeps⟩, fun step hashes proved hnext => ?_⟩
  cases hp : q.prog cfg with
  | ret x =>
    rw [hp] at hnext
    cases hnext
  | call o k =>
    rw [hp] at hnext hkeeps
    obtain rfl : o = _ := Option.some.inj hnext
    -- nothing has been read yet, so there is nothing the code could have been matched against
    obtain ⟨now, hseen, _⟩ := hkeeps.1
    cases hseen

theorem seen_of_next {code : String} {seen : Option (List UInt8 × Time)} {s s' : AccountTables}
    {e : Surroundings} {i : Nat} {o : TwoStepCall} {a : o.Reply}
    (h : s.exec e i o = some (s', a)) {p : TwoStepProg TwoStepOutcome}
    (hp : Confirms cfg.ins code ((confirmWatch cfg.ins code).after seen o a) p) {step : Int}
    {hashes : List String} {proved : List UInt8}
    (hnext : p.next = some (.confirmTwoStep step hashes proved)) :
    (∃ now, Proves cfg.ins code proved now step) ∧ s' = s ∧
      ∀ row, s.twoStep = some row → row.secretEnc = proved := by
  cases p with
  | ret x => cases hnext
  | call o' k =>
    obtain rfl : o' = _ := Option.some.inj hnext
    obtain ⟨now, hseen, hproves⟩ := hp.1
    refine ⟨⟨now, hproves⟩, ?_⟩
    cases o with
    | getTwoStep =>
      cases a with
      | mk around answer =>
        cases answer with
        | error err => cases hseen
        | ok ts =>
          obtain ⟨rfl, hrow⟩ := getTwoStep_ok h
          refine ⟨rfl, fun row hr => ?_⟩
          obtain rfl : ts = row.scan := hrow row hr
          exact (Prod.mk.inj (Option.some.inj hseen)).1
    | _ => cases hseen

/-- A step leaves every request about to confirm with a code that matches. -/
theorem Awaited.step (w : TwoStepWorld) (h : Awaited cfg w) (i : Nat) (e : Surroundings)
    (hguard : ∀ o, w.next i = some o → noReplacement w i e o) :
    Awaited cfg (w.step AccountTables.exec i e) := by
  rcases World.step_cases with hsame | ⟨q, o, k, s, a, hp, he, hstep⟩
  · rw [hsame]
    exact h
  rw [hstep]
  intro j r hj
  obtain ⟨⟨seen, hkeeps⟩, hnext⟩ := h i _ hp
  rcases World.set_cases hj with ⟨rfl, rfl⟩ | ⟨hne, hold⟩
  · refine ⟨⟨_, hkeeps.2 a⟩, fun step hashes proved hn => ?_⟩
    obtain ⟨hproves, hs, hrow⟩ := seen_of_next cfg he (hkeeps.2 a) hn
    subst hs
    exact ⟨hproves, fun row hr _ => hrow row hr⟩
  obtain ⟨hk, hawait⟩ := h j r hold
  refine ⟨hk, fun step hashes proved hn => ⟨(hawait step hashes proved hn).1, ?_⟩⟩
  intro row hrow hpending
  have hi : w.next i = some o := by
    rw [World.next, hp]
    rfl
  have hj' : w.next j = some (.confirmTwoStep step hashes proved) := by
    rw [World.next, hold]
    exact hn
  rcases exec_moves he with hsame | hgone | ⟨sec, hbegin, _⟩ |
    ⟨_, _, _, _, row', _, _, _, hrow', hon, _⟩ | ⟨_, row', _, _, hrow', hon⟩
  · exact (hawait step hashes proved hn).2 row (hsame.symm.trans hrow) hpending
  · rw [hgone] at hrow
    cases hrow
  · rw [hbegin] at hi
    have hlt : j < w.procs.length := (List.getElem?_eq_some_iff.mp hold).1
    have hno := hguard _ hi rfl j hlt hne
    rw [hj'] at hno
    cases hno
  · obtain rfl : row' = row := Option.some.inj (hrow'.symm.trans hrow)
    exact absurd hpending hon
  · obtain rfl : row' = row := Option.some.inj (hrow'.symm.trans hrow)
    exact absurd hpending hon

theorem confirm_of_turns_on {s s' : AccountTables} {e : Surroundings} {i : Nat} {o : TwoStepCall}
    {a : o.Reply} (h : s.exec e i o = some (s', a)) (hoff : s.twoStepOn = false)
    (hon : s'.twoStepOn = true) : ∃ step hashes proved row row',
      o = .confirmTwoStep step hashes proved ∧ s.twoStep = some row ∧ row.enabledAt = none ∧
      s'.twoStep = some row' ∧ row'.secretEnc = row.secretEnc := by
  rcases exec_moves h with hsame | hgone | ⟨_, _, hoff'⟩ |
    ⟨step, hashes, proved, row, row', ho, hrow, hp, hrow', _, hsec⟩ | ⟨row, row', hrow, hen, _⟩
  · rw [AccountTables.twoStepOn, hsame] at hon
    exact absurd (hon.symm.trans hoff) (by decide)
  · rw [AccountTables.twoStepOn, hgone] at hon
    cases hon
  · exact absurd (hon.symm.trans hoff') (by decide)
  · exact ⟨step, hashes, proved, row, row', ho, hrow, hp, hrow', hsec⟩
  · rw [AccountTables.twoStepOn, hrow, Option.any_some] at hoff
    exact absurd (Option.not_isSome_iff_eq_none.mp (Bool.not_eq_true _ |>.mpr hoff)) hen

end

/-- Whenever two-step becomes enabled, the stored secret is the one the code was matched against:
over every run in which none is replaced between the match and the confirming write. -/
theorem turned_on_as_proved (cfg : AuthConfig) (s : AccountTables) (moves : List TwoStepMove)
    (hm : World.Guarded AccountTables.exec (TwoStepRequest.prog cfg) noReplacement
      (⟨s, []⟩ : TwoStepWorld) moves)
    (i : Nat) (e : Surroundings)
    (hoff : (TwoStepWorld.run cfg ⟨s, []⟩ moves).shared.twoStepOn = false)
    (hon : (TwoStepWorld.run cfg ⟨s, []⟩ (moves ++ [.step i e])).shared.twoStepOn = true) :
    ∃ r row step hashes now, (TwoStepWorld.run cfg ⟨s, []⟩ moves).procs[i]? = some r ∧
      (TwoStepWorld.run cfg ⟨s, []⟩ (moves ++ [.step i e])).shared.twoStep = some row ∧
      r.rest.next = some (.confirmTwoStep step hashes row.secretEnc) ∧
      Proves cfg.ins r.request.code row.secretEnc now step := by
  have hawaited : Awaited cfg (TwoStepWorld.run cfg ⟨s, []⟩ moves) :=
    World.run_induction (Awaited cfg)
      (fun w q h => h.spawn cfg w q) (fun w i e h hg => h.step cfg w i e hg) _
      (fun _ _ hr => by cases hr) hm
  have hlast : TwoStepWorld.run cfg ⟨s, []⟩ (moves ++ [.step i e]) =
      (TwoStepWorld.run cfg ⟨s, []⟩ moves).step AccountTables.exec i e :=
    List.foldl_append
  rw [hlast] at hon ⊢
  generalize TwoStepWorld.run cfg ⟨s, []⟩ moves = w at hawaited hoff hon
  rcases World.step_cases with hsame | ⟨q, o, k, s', a, hp, he, hstep⟩
  · rw [hsame] at hon
    exact absurd (hon.symm.trans hoff) (by decide)
  rw [hstep] at hon ⊢
  obtain ⟨step, hashes, proved, row, row', rfl, hrow, hpending, hrow', hsec⟩ :=
    confirm_of_turns_on he hoff hon
  obtain ⟨⟨now, hproves⟩, hsecret⟩ := (hawaited i _ hp).2 step hashes proved rfl
  have hproved : row'.secretEnc = proved := hsec.trans (hsecret row hrow hpending)
  refine ⟨_, row', step, hashes, now, hp, hrow', ?_, ?_⟩
  · rw [hproved]
    rfl
  · rw [hproved]
    exact hproves

def plainInstruments : Instruments where
  hashToken token := token
  verifyPassword password hash := password == hash
  totpCode secret _ := .ok secret
  key := some ⟨fun nonce _ => nonce, fun sealed => .ok (if sealed = [1] then "111111" else "222222")⟩
  totpURI secret _ _ := secret
  drawQR uri := .ok uri

def plainAccount : AccountTables := { user := some { username := "ada", passwordHash := "pw" } }

def enrolThenConfirm : List TwoStepMove :=
  [.spawn (.beginTwoStep "" "111111" [1]), .step 0 {}, .step 0 {},
    .spawn (.confirmTwoStep "111 111" "" ["abcde-fghij"]), .step 1 {}, .step 1 {}]

theorem turned_on_as_proved_once : ∃ r row step hashes now,
      (TwoStepWorld.run ⟨plainInstruments, 0⟩ ⟨plainAccount, []⟩ enrolThenConfirm).procs[1]? = some r ∧
      (TwoStepWorld.run ⟨plainInstruments, 0⟩ ⟨plainAccount, []⟩
        (enrolThenConfirm ++ [.step 1 {}])).shared.twoStep = some row ∧
      r.rest.next = some (.confirmTwoStep step hashes row.secretEnc) ∧
      Proves plainInstruments r.request.code row.secretEnc now step :=
  turned_on_as_proved ⟨plainInstruments, 0⟩ plainAccount enrolThenConfirm (by decide +kernel) 1 {}
    (by decide +kernel) (by decide +kernel)

def enrolAgain : List TwoStepMove :=
  enrolThenConfirm ++ [.spawn (.beginTwoStep "" "222222" [2]), .step 2 {}, .step 2 {}]

/-- The second enrolment lands between the match and the confirming write. -/
theorem turned_on_with_replaced_secret :
    (TwoStepWorld.run ⟨plainInstruments, 0⟩ ⟨plainAccount, []⟩ enrolAgain).shared.twoStepOn = false ∧
      (TwoStepWorld.run ⟨plainInstruments, 0⟩ ⟨plainAccount, []⟩
        (enrolAgain ++ [.step 1 {}])).shared.twoStep =
          some ⟨[2], some (ms 0), totpStep 0 - 1, ms 0⟩ ∧
      ∀ now step, ¬ Proves plainInstruments "111 111" [2] now step := by
  refine ⟨by decide +kernel, by decide +kernel, ?_⟩
  rintro now step ⟨secret, hsecret, hmatch⟩
  obtain rfl : secret = "222222" := (Except.ok.inj hsecret).symm
  have hcode := (matchTOTP_eq_some hmatch).2
  have hne : normaliseCode "111 111" ≠ "222222" := by decide +kernel
  exact hne (Except.ok.inj hcode).symm

end Zoomies.Auth
