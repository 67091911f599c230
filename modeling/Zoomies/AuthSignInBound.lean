import Zoomies.AuthTwoStepOn

/-! One password proof buys at most five wrong codes and one session, as long as the requests with
its challenge are served one by one and the store keeps the count. -/
namespace Zoomies.Auth
open Zoomies.Go Zoomies.Store

def TwoStepCall.counts : TwoStepCall → Bool
  | .failSignInChallenge _ => true
  | _ => false

def TwoStepCall.reads : TwoStepCall → Bool
  | .getSignInChallenge _ => true
  | _ => false

def TwoStepCall.ends : TwoStepCall → Bool
  | .deleteSignInChallenge _ => true
  | _ => false

def AccountTables.pending (s : AccountTables) (h : String) : Option ChallengeRow :=
  s.challenges.find? fun c => c.tokenHash == h

section
variable (h : String) (n : Nat)

variable (s : AccountTables) (wrong : Nat)

def Settled : Prop :=
  match s.pending h with
  | some c => wrong ≤ c.failures ∧ (wrong = 0 ∨ c.failures < maxChallengeFailures) ∧
      s.sessions.length = n
  | none => wrong ≤ maxChallengeFailures ∧ s.sessions.length ≤ n + 1

def Underway (counting : Bool) : SignInPhase → Prop
  | .fresh | .ending => Settled h n s wrong
  | .opened h' => h' = h ∧ s.sessions.length = n ∧ ∃ c, s.pending h = some c ∧
      if counting then 1 ≤ wrong ∧ wrong ≤ c.failures + 1 ∧
        (wrong = 1 ∨ c.failures < maxChallengeFailures)
      else wrong ≤ c.failures ∧ (wrong = 0 ∨ c.failures < maxChallengeFailures)
  | .closing h' => h' = h ∧ wrong ≤ maxChallengeFailures ∧ s.sessions.length = n
  | .minting => s.pending h = none ∧ wrong ≤ maxChallengeFailures ∧ s.sessions.length = n

theorem Settled.le (hs : Settled h n s wrong) :
    wrong ≤ maxChallengeFailures ∧ s.sessions.length ≤ n + 1 := by
  unfold Settled at hs
  cases hp : s.pending h with
  | none =>
    rw [hp] at hs
    exact hs
  | some c =>
    rw [hp] at hs
    exact ⟨by omega, by omega⟩

theorem Underway.le (counting : Bool) (phase : SignInPhase)
    (hs : Underway h n s wrong counting phase) :
    wrong ≤ maxChallengeFailures ∧ s.sessions.length ≤ n + 1 := by
  cases phase with
  | fresh | ending => exact Settled.le h n s wrong hs
  | opened h' =>
    obtain ⟨_, hn, c, _, hc⟩ := hs
    have hmax : maxChallengeFailures = 5 := rfl
    cases counting with
    | true =>
      obtain ⟨_, hle, hlt⟩ := hc
      exact ⟨by omega, by omega⟩
    | false =>
      obtain ⟨hle, hlt⟩ : wrong ≤ c.failures ∧ _ := hc
      exact ⟨by omega, by omega⟩
  | closing h' | minting => exact ⟨hs.2.1, Nat.le_succ_of_le (Nat.le_of_eq hs.2.2)⟩

variable {s : AccountTables} {wrong : Nat}

theorem Underway.settled {phase : SignInPhase} (hs : Underway h n s wrong false phase)
    (hphase : phase.settled = true) : Settled h n s wrong := by
  cases phase with
  | fresh | ending => exact hs
  | opened h' =>
    obtain ⟨_, hn, c, hc, hle, hlt⟩ := hs
    rw [Settled, hc]
    exact ⟨hle, hlt, hn⟩
  | closing h' => cases hphase
  | minting =>
    obtain ⟨hgone, hle, hn⟩ := hs
    rw [Settled, hgone]
    exact ⟨hle, by omega⟩

theorem Underway.compare {h' : String}
    (hs : Underway h n s wrong false (.opened h')) :
    Underway h n s (wrong + 1) true (.opened h') := by
  obtain ⟨hh, hn, c, hc, hle, hlt⟩ := hs
  refine ⟨hh, hn, c, hc, Nat.le_add_left 1 wrong, Nat.succ_le_succ hle, ?_⟩
  rcases hlt with rfl | hlt
  · exact .inl rfl
  · exact .inr hlt

variable {s' : AccountTables}

theorem Underway.congr {counting : Bool} {phase : SignInPhase}
    (hs : Underway h n s wrong counting phase) (hc : s'.challenges = s.challenges)
    (hn : s'.sessions = s.sessions) : Underway h n s' wrong counting phase := by
  have hp : s'.pending h = s.pending h := congrArg (List.find? _) hc
  cases phase <;> simpa only [Underway, Settled, hp, hn] using hs

theorem tokenHash_of_pending {c : ChallengeRow} (hc : s.pending h = some c) : c.tokenHash = h := by
  have hfound := List.find?_some hc
  exact beq_iff_eq.mp hfound

theorem pending_counted {c : ChallengeRow} (hc : s.pending h = some c) :
    (s.counted h).find? (fun c => c.tokenHash == h) =
      some { c with failures := c.failures + 1 } := by
  have hcomp : ((fun c : ChallengeRow => c.tokenHash == h) ∘ fun c : ChallengeRow =>
      if c.tokenHash = h then { c with failures := c.failures + 1 } else c) =
        fun c => c.tokenHash == h := by
    funext c
    by_cases hch : c.tokenHash = h
    · rw [Function.comp_apply, if_pos hch]
    · rw [Function.comp_apply, if_neg hch]
  have hhash : c.tokenHash = h := tokenHash_of_pending h hc
  rw [AccountTables.counted, List.find?_map, hcomp]
  rw [show s.challenges.find? (fun c => c.tokenHash == h) = some c from hc, Option.map_some,
    if_pos hhash]

theorem pending_deleteSignInChallenge : (s.deleteSignInChallenge h).pending h = none := by
  rw [AccountTables.pending, AccountTables.deleteSignInChallenge, List.find?_eq_none]
  intro c hc
  have hne := (List.mem_filter.mp hc).2
  rw [bne_iff_ne] at hne
  rw [beq_iff_eq]
  exact hne

variable {e : Surroundings} {i : Nat}

theorem getSignInChallenge_reads {a : (TwoStepCall.getSignInChallenge h).Reply}
    (he : s.exec e i (.getSignInChallenge h) = some (s', a)) (hs : Settled h n s wrong) :
    Underway h n s' wrong false (SignInPhase.fresh.after (.getSignInChallenge h) a) := by
  obtain ⟨rfl, ha⟩ : (e.attempt s (s, s.getSignInChallenge h)).1 = s' ∧
      (e.around, (e.attempt s (s, s.getSignInChallenge h)).2) = a :=
    Prod.mk.inj (Option.some.inj he)
  subst ha
  unfold Surroundings.attempt AccountTables.getSignInChallenge
  cases e.error with
  | some text => exact hs
  | none =>
    cases hp : s.pending h with
    | none =>
      rw [AccountTables.pending] at hp
      rw [hp]
      exact hs
    | some c =>
      have hhash : c.tokenHash = h := tokenHash_of_pending h hp
      rw [Settled, hp] at hs
      obtain ⟨hle, hlt, hn⟩ := hs
      have hfind : s.challenges.find? (fun c => c.tokenHash == h) = some c := hp
      rw [hfind]
      exact ⟨hhash, hn, c, hp, hle, hlt⟩

theorem failSignInChallenge_counts {a : (TwoStepCall.failSignInChallenge h).Reply}
    (he : s.exec e i (.failSignInChallenge h) = some (s', a)) (herr : e.error = none)
    (hs : Underway h n s wrong true (.opened h)) :
    Underway h n s' wrong false ((SignInPhase.opened h).after (.failSignInChallenge h) a) := by
  obtain ⟨_, hn, c, hc, hpos, hle, hlt⟩ := hs
  obtain ⟨rfl, ha⟩ : (s.failSignInChallenge e h).1 = s' ∧
      (e.around, (s.failSignInChallenge e h).2) = a :=
    Prod.mk.inj (Option.some.inj he)
  subst ha
  have hcounted := pending_counted h hc
  have hmax : maxChallengeFailures = 5 := rfl
  unfold AccountTables.failSignInChallenge
  rw [herr]
  dsimp only
  rw [hcounted]
  dsimp only [SignInPhase.after]
  by_cases hlast : maxChallengeFailures ≤ c.failures + 1 ∨ (none : Option CallError) = some .notFound
  · rw [if_pos hlast]
    exact ⟨rfl, by omega, hn⟩
  rw [if_neg hlast]
  have hroom : c.failures + 1 < maxChallengeFailures := by omega
  have hp : AccountTables.pending { s with challenges := s.counted h } h = _ := hcounted
  rw [Underway, Settled, hp]
  exact ⟨hle, .inr hroom, hn⟩

theorem deleteSignInChallenge_ends {a : (TwoStepCall.deleteSignInChallenge h).Reply}
    (he : s.exec e i (.deleteSignInChallenge h) = some (s', a)) (herr : e.error = none)
    (hn : s.sessions.length = n) : s'.pending h = none ∧ s'.sessions.length = n ∧
      (SignInPhase.opened h).after (.deleteSignInChallenge h) a = .minting := by
  obtain ⟨rfl, ha⟩ : (e.attempt s (s.deleteSignInChallenge h, (.ok () : Except CallError Unit))).1 = s' ∧
      (e.around, (e.attempt s (s.deleteSignInChallenge h, (.ok () : Except CallError Unit))).2) = a :=
    Prod.mk.inj (Option.some.inj he)
  subst ha
  unfold Surroundings.attempt
  rw [herr]
  exact ⟨pending_deleteSignInChallenge h, hn, rfl⟩

def TwoStepCall.quiet : TwoStepCall → Bool
  | .getUser | .getTwoStep | .useRecoveryCode _ | .acceptTwoStepStep _ | .touchLogin _
  | .remainingRecoveryCodes => true
  | _ => false

theorem exec_quiet {o : TwoStepCall} {a : o.Reply} (he : s.exec e i o = some (s', a))
    (hquiet : o.quiet = true) : s'.challenges = s.challenges ∧ s'.sessions = s.sessions := by
  have hs : (s.challenges = s.challenges ∧ s.sessions = s.sessions) := ⟨rfl, rfl⟩
  cases o with
  | getUser | getTwoStep | useRecoveryCode codeHash | touchLogin now | remainingRecoveryCodes =>
    cases he
    exact attempt_induct s e (fun t => t.challenges = _ ∧ t.sessions = _) hs hs
  | acceptTwoStepStep step =>
    cases he
    refine attempt_induct s e (fun t => t.challenges = _ ∧ t.sessions = _) hs ?_
    unfold AccountTables.acceptTwoStepStep
    split
    · exact hs
    · split <;> exact hs
  | _ => cases hquiet

theorem createSession_mints {session : AuthSession} {a : (TwoStepCall.createSession session).Reply}
    (he : s.exec e i (.createSession session) = some (s', a)) :
    s'.challenges = s.challenges ∧ s'.sessions.length ≤ s.sessions.length + 1 := by
  cases he
  have hs : s.challenges = s.challenges ∧ s.sessions.length ≤ s.sessions.length + 1 :=
    ⟨rfl, Nat.le_succ _⟩
  refine attempt_induct s e (fun t => t.challenges = _ ∧ t.sessions.length ≤ _) hs ?_
  unfold AccountTables.createSession
  split
  · exact hs
  · exact ⟨rfl, Nat.le_of_eq List.length_append⟩

/-- A call of the request under way keeps the challenge's books. -/
theorem Underway.step (s s' : AccountTables) (e : Surroundings) (i : Nat) (o : TwoStepCall)
    (a : o.Reply) (he : s.exec e i o = some (s', a)) (phase : SignInPhase)
    (hmay : phase.may h o) (herr : o.counts = true ∨ o.ends = true → e.error = none)
    (wrong : Nat) (hs : Underway h n s wrong o.counts phase) :
    Underway h n s' wrong false (phase.after o a) := by
  have hframe (hquiet : o.quiet = true) : Underway h n s' wrong o.counts phase := by
    obtain ⟨hc, hn⟩ := exec_quiet he hquiet
    exact Underway.congr h n hs hc hn
  cases phase with
  | fresh =>
    cases o with
    | getSignInChallenge h' =>
      obtain rfl : h' = h := hmay
      exact getSignInChallenge_reads h' n he hs
    | _ => exact hmay.elim
  | opened h' =>
    obtain rfl : h' = h := hs.1
    cases o with
    | failSignInChallenge h'' =>
      obtain rfl : h'' = h' := hmay
      exact failSignInChallenge_counts h'' n he (herr (.inl rfl)) hs
    | deleteSignInChallenge h'' =>
      obtain rfl : h'' = h' := hmay
      have hle := (Underway.le h'' n s wrong _ _ hs).1
      obtain ⟨hgone, hn, hafter⟩ := deleteSignInChallenge_ends h'' n he (herr (.inr rfl)) hs.2.1
      rw [hafter]
      exact ⟨hgone, hle, hn⟩
    | getUser | getTwoStep | useRecoveryCode _ | acceptTwoStepStep _ => exact hframe rfl
    | _ => exact hmay.elim
  | closing h' =>
    obtain rfl : h' = h := hs.1
    cases o with
    | deleteSignInChallenge h'' =>
      obtain rfl : h'' = h' := hmay
      obtain ⟨hgone, hn, _⟩ := deleteSignInChallenge_ends h'' n he (herr (.inr rfl)) hs.2.2
      change Settled h'' n s' wrong
      rw [Settled, hgone]
      exact ⟨hs.2.1, by omega⟩
    | _ => exact hmay.elim
  | minting =>
    cases o with
    | createSession session =>
      obtain ⟨hc, hlen⟩ := createSession_mints he
      obtain ⟨hgone, hle, hn⟩ := hs
      have hp : s'.pending h = none := (congrArg (List.find? _) hc).trans hgone
      change Settled h n s' wrong
      rw [Settled, hp]
      exact ⟨hle, by omega⟩
    | _ => exact hmay.elim
  | ending =>
    cases o with
    | touchLogin _ | remainingRecoveryCodes => exact hframe rfl
    | _ => exact hmay.elim

end

structure CodeAttempt where
  code : String
  ip : String := ""
  ua : List UInt8 := []
  session : String := ""

def CodeAttempt.prog (cfg : AuthConfig) (token : String) (q : CodeAttempt) :
    TwoStepProg (Checked SignIn) :=
  verifySignIn cfg token q.code q.ip q.ua q.session

abbrev AttemptWorld : Type :=
  World AccountTables CodeAttempt TwoStepCall TwoStepCall.Reply (Checked SignIn)

abbrev RunningAttempt : Type :=
  Running CodeAttempt TwoStepCall TwoStepCall.Reply (Checked SignIn)

abbrev AttemptMove : Type := Move CodeAttempt Surroundings

def AttemptWorld.run (cfg : AuthConfig) (token : String) (w : AttemptWorld)
    (moves : List AttemptMove) : AttemptWorld :=
  World.run AccountTables.exec (CodeAttempt.prog cfg token) w moves

def comparedWrong (w : AttemptWorld) (i : Nat) (e : Surroundings) : Bool :=
  !(w.next i).any TwoStepCall.counts &&
    ((w.step AccountTables.exec i e).next i).any TwoStepCall.counts

def wrongCodes (cfg : AuthConfig) (token : String) : AttemptWorld → List AttemptMove → Nat
  | _, [] => 0
  | w, .spawn q :: rest => wrongCodes cfg token (w.spawn (CodeAttempt.prog cfg token) q) rest
  | w, .step i e :: rest =>
    (comparedWrong w i e).toNat + wrongCodes cfg token (w.step AccountTables.exec i e) rest

def idle (r : RunningAttempt) : Prop :=
  r.rest.next.all TwoStepCall.reads = true

def oneAtATime (w : AttemptWorld) (i : Nat) (e : Surroundings) (o : TwoStepCall) : Prop :=
  -- no request reads the challenge while another is under way with it, and the store does not fail
  -- to count or end it
  (o.reads = true → ∀ j < w.procs.length, j ≠ i → (w.next j).all TwoStepCall.reads = true) ∧
    (o.counts = true ∨ o.ends = true → e.error = none)

instance (w : AttemptWorld) (i : Nat) (e : Surroundings) (o : TwoStepCall) :
    Decidable (oneAtATime w i e o) :=
  inferInstanceAs (Decidable ((_ → ∀ j < w.procs.length, _ → _) ∧ (_ → _)))

section
variable (cfg : AuthConfig) (token h : String) (n : Nat)

def Bounded (w : AttemptWorld) (wrong : Nat) : Prop :=
  (∀ (i : Nat) (r : RunningAttempt), w.procs[i]? = some r → ∃ phase, SignsIn h phase r.rest) ∧
    ((∀ (i : Nat) (r : RunningAttempt), w.procs[i]? = some r → idle r) ∧
        Settled h n w.shared wrong ∨
      ∃ (i : Nat) (r : RunningAttempt) (phase : SignInPhase), w.procs[i]? = some r ∧
        (∀ j r', j ≠ i → w.procs[j]? = some r' → idle r') ∧ SignsIn h phase r.rest ∧
        Underway h n w.shared wrong (r.rest.next.any TwoStepCall.counts) phase)

theorem Bounded.le (w : AttemptWorld) (wrong : Nat) (hw : Bounded h n w wrong) :
    wrong ≤ maxChallengeFailures ∧ w.shared.sessions.length ≤ n + 1 := by
  rcases hw.2 with ⟨_, hs⟩ | ⟨i, r, phase, _, _, _, hs⟩
  · exact hs.le h n
  · exact hs.le h n

variable {phase : SignInPhase} {o : TwoStepCall}

theorem fresh_of_reads (hmay : phase.may h o)
    (ho : o.reads = true) : phase = .fresh := by
  cases o with
  | getSignInChallenge h' =>
    cases phase with
    | fresh => rfl
    | _ => exact hmay.elim
  | _ => cases ho

theorem opened_of_counts (phase : SignInPhase) (hmay : phase.may h o)
    (ho : o.counts = true) : ∃ h', phase = .opened h' := by
  cases o with
  | failSignInChallenge h' =>
    cases phase with
    | opened h'' => exact ⟨h'', rfl⟩
    | _ => exact hmay.elim
  | _ => cases ho

theorem settled_of_idle {r : RunningAttempt} (hr : idle r)
    (hphase : SignsIn h phase r.rest) {s : AccountTables} {wrong : Nat}
    (hs : Underway h n s wrong (r.rest.next.any TwoStepCall.counts) phase) :
    Settled h n s wrong := by
  obtain ⟨q, p⟩ := r
  cases p with
  | ret x => exact Underway.settled h n hs hphase
  | call o k =>
    have ho : o.reads = true := hr
    obtain rfl := fresh_of_reads h hphase.1 ho
    exact hs

theorem idle_of_fresh {r : RunningAttempt} (hr : SignsIn h .fresh r.rest) : idle r := by
  obtain ⟨q, p⟩ := r
  cases p with
  | ret x => rfl
  | call o k =>
    have hmay : SignInPhase.may h .fresh o := hr.1
    cases o with
    | getSignInChallenge h' => rfl
    | _ => exact hmay.elim

variable (w : AttemptWorld) (wrong : Nat)

theorem Bounded.spawn
    (hw : Bounded (cfg.ins.hashToken token) n w wrong) (q : CodeAttempt) :
    Bounded (cfg.ins.hashToken token) n (w.spawn (CodeAttempt.prog cfg token) q) wrong := by
  have hnew : SignsIn (cfg.ins.hashToken token) .fresh (q.prog cfg token) :=
    verifySignIn_signsIn
  have hidle : idle ⟨q, q.prog cfg token⟩ := idle_of_fresh _ hnew
  obtain ⟨hphases, hbooks⟩ := hw
  refine ⟨fun i r hr => ?_, ?_⟩
  · rcases World.spawn_cases hr with hold | ⟨_, rfl⟩
    · exact hphases i r hold
    · exact ⟨.fresh, hnew⟩
  rcases hbooks with ⟨hall, hs⟩ | ⟨i, r, phase, hi, hothers, hphase, hs⟩
  · refine .inl ⟨fun i r hr => ?_, hs⟩
    rcases World.spawn_cases hr with hold | ⟨_, rfl⟩
    · exact hall i r hold
    · exact hidle
  have hlt : i < w.procs.length := (List.getElem?_eq_some_iff.mp hi).1
  refine .inr ⟨i, r, phase, (List.getElem?_append_left hlt).trans hi, fun j r' hj hr => ?_,
    hphase, hs⟩
  rcases World.spawn_cases hr with hold | ⟨_, rfl⟩
  · exact hothers j r' hj hold
  · exact hidle

theorem Bounded.caller {w : AttemptWorld} {wrong : Nat} (hw : Bounded h n w wrong) {i : Nat}
    {e : Surroundings} {q : CodeAttempt}
    {k : o.Reply → TwoStepProg (Checked SignIn)} (hp : w.procs[i]? = some ⟨q, .call o k⟩)
    (hguard : oneAtATime w i e o) :
    ∃ phase, SignsIn h phase (.call o k : TwoStepProg (Checked SignIn)) ∧
      (∀ j r, j ≠ i → w.procs[j]? = some r → idle r) ∧
      Underway h n w.shared wrong o.counts phase := by
  obtain ⟨hphases, hbooks⟩ := hw
  -- between requests, the caller can only be about to read the challenge
  have hidle (hall : ∀ (j : Nat) (r : RunningAttempt), w.procs[j]? = some r → idle r)
      (hs : Settled h n w.shared wrong) : ∃ phase,
        SignsIn h phase (.call o k : TwoStepProg (Checked SignIn)) ∧
        (∀ j r, j ≠ i → w.procs[j]? = some r → idle r) ∧
        Underway h n w.shared wrong o.counts phase := by
    obtain ⟨phase, hphase⟩ := hphases i _ hp
    have ho : o.reads = true := hall i _ hp
    obtain rfl := fresh_of_reads h hphase.1 ho
    exact ⟨.fresh, hphase, fun j r _ => hall j r, hs⟩
  rcases hbooks with ⟨hall, hs⟩ | ⟨i', r, phase, hi, hothers, hphase, hs⟩
  · exact hidle hall hs
  by_cases hii : i = i'
  · subst hii
    obtain rfl : r = ⟨q, .call o k⟩ := Option.some.inj (hi.symm.trans hp)
    exact ⟨phase, hphase, hothers, hs⟩
  have ho : o.reads = true := hothers i _ hii hp
  have hlt : i' < w.procs.length := (List.getElem?_eq_some_iff.mp hi).1
  have hr : idle r := by
    have hnext := hguard.1 ho i' hlt (Ne.symm hii)
    rw [World.next, hi] at hnext
    exact hnext
  refine hidle (fun j r' hr' => ?_) (settled_of_idle h n hr hphase hs)
  by_cases hj : j = i'
  · subst hj
    obtain rfl : r = r' := Option.some.inj (hi.symm.trans hr')
    exact hr
  · exact hothers j r' hj hr'

theorem not_counts_of_opened {a : o.Reply}
    (hmay : phase.may h o) {h' : String} (hafter : phase.after o a = .opened h') :
    o.counts = false := by
  cases o with
  | failSignInChallenge _ =>
    cases phase with
    | opened held =>
      obtain ⟨around, m, err⟩ := a
      dsimp only [SignInPhase.after] at hafter
      split at hafter <;> cases hafter
    | _ => exact hmay.elim
  | _ => rfl

/-- One step of any request keeps the bound. -/
theorem Bounded.step (hw : Bounded h n w wrong) (i : Nat)
    (e : Surroundings) (hguard : ∀ o, w.next i = some o → oneAtATime w i e o) :
    Bounded h n (w.step AccountTables.exec i e) (wrong + (comparedWrong w i e).toNat) := by
  rcases World.step_cases with hsame | ⟨q, o, k, s, a, hp, he, hstep⟩
  · rw [comparedWrong, hsame, Bool.not_and_self]
    exact hw
  have hnext : w.next i = some o := by
    rw [World.next, hp]
    rfl
  have hlt : i < w.procs.length := (List.getElem?_eq_some_iff.mp hp).1
  have hself : (w.procs.set i ⟨q, k a⟩)[i]? = some ⟨q, k a⟩ := List.getElem?_set_self hlt
  have hnext' : (w.step AccountTables.exec i e).next i = (k a).next := by
    rw [hstep, World.next, hself]
    rfl
  obtain ⟨phase, hphase, hothers, hs⟩ := hw.caller h n hp (hguard o hnext)
  have hbooks : Underway h n s wrong false (phase.after o a) :=
    hs.step h n w.shared s e i o a he phase hphase.1 (hguard o hnext).2 wrong
  rw [comparedWrong, hnext, hnext', hstep]
  refine ⟨fun j r hj => ?_, .inr ⟨i, ⟨q, k a⟩, phase.after o a, hself, fun j r hji hj => ?_,
    hphase.2 a, ?_⟩⟩
  · rcases World.set_cases hj with ⟨rfl, rfl⟩ | ⟨_, hold⟩
    · exact ⟨_, hphase.2 a⟩
    · exact hw.1 j r hold
  · rcases World.set_cases hj with ⟨rfl, _⟩ | ⟨_, hold⟩
    · exact absurd rfl hji
    · exact hothers j r hji hold
  have hrest := hphase.2 a
  cases hka : k a with
  | ret x => simpa [Prog.next] using hbooks
  | call o' k' =>
    rw [hka] at hrest
    cases hcount : o'.counts with
    | false => simpa [Prog.next, hcount] using hbooks
    | true =>
      obtain ⟨h', hopened⟩ := opened_of_counts h (phase.after o a) hrest.1 hcount
      have ho := not_counts_of_opened h hphase.1 hopened
      rw [hopened] at hbooks ⊢
      simpa [Prog.next, hcount, ho] using hbooks.compare h n

theorem Bounded.run (moves : List AttemptMove)
    (hw : Bounded (cfg.ins.hashToken token) n w wrong)
    (hm : World.Guarded AccountTables.exec (CodeAttempt.prog cfg token) oneAtATime w moves) :
    Bounded (cfg.ins.hashToken token) n (AttemptWorld.run cfg token w moves)
      (wrong + wrongCodes cfg token w moves) := by
  induction moves generalizing w wrong with
  | nil => exact hw
  | cons m rest ih =>
    cases m with
    | spawn q => exact ih _ _ (hw.spawn cfg token n w wrong q) hm
    | step i e =>
      rw [wrongCodes, ← Nat.add_assoc]
      exact ih _ _ (hw.step _ n w wrong i e hm.1) hm.2

end

/-- Over every run of `VerifySignIn` requests that carry one challenge, served one at a time, at
most five wrong codes are compared and at most one session is minted. -/
theorem challenge_bounded (cfg : AuthConfig) (token : String) (s : AccountTables)
    (moves : List AttemptMove)
    (hm : World.Guarded AccountTables.exec (CodeAttempt.prog cfg token) oneAtATime
      (⟨s, []⟩ : AttemptWorld) moves) :
    wrongCodes cfg token ⟨s, []⟩ moves ≤ maxChallengeFailures ∧
      (AttemptWorld.run cfg token ⟨s, []⟩ moves).shared.sessions.length ≤ s.sessions.length + 1 := by
  have hstart : Bounded (cfg.ins.hashToken token) s.sessions.length ⟨s, []⟩ 0 := by
    refine ⟨fun i r hr => (by cases hr), .inl ⟨fun i r hr => (by cases hr), ?_⟩⟩
    rw [Settled]
    cases s.pending (cfg.ins.hashToken token) with
    | none => exact ⟨Nat.zero_le _, Nat.le_succ _⟩
    | some c => exact ⟨Nat.zero_le _, .inl rfl, rfl⟩
  have hrun := (hstart.run cfg token _ _ 0 moves hm).le
  rw [Nat.zero_add] at hrun
  exact hrun

def waitingAccount : AccountTables :=
  { plainAccount with
    twoStep := some ⟨[1], some 1, 0, 0⟩
    recoveryCodes := [⟨"abcdefghij", none, 0⟩]
    challenges := [{ tokenHash := "challenge", expiresAt := 300000 }] }

def inTime : Surroundings := { around := { now := unixEpoch + minute } }

def wrongAttempt : CodeAttempt := { code := "333333" }

def served (i : Nat) : List AttemptMove := [.step i inTime, .step i inTime, .step i inTime]

theorem challenge_bounded_twice : wrongCodes ⟨plainInstruments, 0⟩ "challenge" ⟨waitingAccount, []⟩
        (.spawn wrongAttempt :: served 0 ++ .step 0 inTime :: .spawn wrongAttempt :: served 1)
      ≤ maxChallengeFailures ∧
    (AttemptWorld.run ⟨plainInstruments, 0⟩ "challenge" ⟨waitingAccount, []⟩
        (.spawn wrongAttempt :: served 0 ++ .step 0 inTime :: .spawn wrongAttempt :: served 1)
      ).shared.sessions.length ≤ waitingAccount.sessions.length + 1 :=
  challenge_bounded ⟨plainInstruments, 0⟩ "challenge" waitingAccount _ (by decide +kernel)

/-- Six requests that read the challenge at once compare six wrong codes; two different codes at
once mint two sessions. -/
theorem challenge_overrun : wrongCodes ⟨plainInstruments, 0⟩ "challenge" ⟨waitingAccount, []⟩
      ((List.range 6).map (fun _ => Move.spawn wrongAttempt) ++ (List.range 6).flatMap served) = 6 ∧
    (AttemptWorld.run ⟨plainInstruments, 0⟩ "challenge" ⟨waitingAccount, []⟩
      ([.spawn { code := "111111", session := "first" },
        .spawn { code := "abcde-fghij", session := "second" }] ++
        served 0 ++ served 1 ++ served 0 ++ served 1)).shared.sessions.map AuthSession.tokenHash =
      ["first", "second"] := by
  decide +kernel

end Zoomies.Auth
