import Zoomies.AgentMemoryRaise

/-! Deciding on the containers of one runner, from a look that was true when it was taken. -/
namespace Zoomies.Agent
open List

section
variable (rules : MemoryRules) (ids : List String) (d₀ : Daemon) (available : Int) (cov : Prop)

def raisedMB (d : Daemon) : Int := heldTotal d ids - heldTotal d₀ ids

structure WithinMeans (books : List Book) (d : Daemon) (free : Int) : Prop where
  names : books.map (·.runnerID) = ids
  grown : ∀ id, List.Forall₂ Grown (d₀ id) (d id)
  nonneg : 0 ≤ raisedMB ids d₀ d
  spent : raisedMB ids d₀ d ≤ max available 0
  free : free + raisedMB ids d₀ d ≤ max available 0
  lent : (∀ id, (d id).map (·.limitMB) = (d₀ id).map (·.limitMB)) ∨
    (rules.floorMB ≤ available - raisedMB ids d₀ d ∧ (cov → lentTotal d books ≤ rules.capacityMB))

structure InHand (r : String) (order : List ValveContainer) (books : List Book) (d : Daemon) :
    Prop where
  book : ∀ b ∈ books, b.runnerID = r → b.live = true ∧ b.containers = some (d r)
  order : (order.map (·.toMemoryContainer)).Perm (d r)
  names : ((d r).map (·.id)).Nodup

theorem forall₂_grown_trans {a b : List MemoryContainer} (c : List MemoryContainer) (h : List.Forall₂ Grown a b)
    (h' : List.Forall₂ Grown b c) : List.Forall₂ Grown a c := by
  induction h generalizing c with
  | nil => exact h'
  | cons hx _ ih =>
    cases h' with
    | cons hy hrest => exact .cons (hx.trans _ _ _ hy) (ih _ hrest)

variable {rules ids d₀ available cov}

variable {r : String}

variable {dec : MemoryGuardDecision}

theorem covered_raise {order : List ValveContainer} {books : List Book} {d : Daemon}
    {c : MemoryContainer} (hin : InHand r order books d)
    (hcov : Covered d books) :
    Covered (d.raise r c.id dec) (setAt (·.runnerID) r (Book.raise c.id dec) books) := by
  intro b hb hlive
  obtain ⟨x, hx, rfl⟩ := mem_map.mp hb
  by_cases hid : x.runnerID = r
  · rw [if_pos hid] at hlive ⊢
    obtain ⟨hl, hcs⟩ := hin.book x hx hid
    have hname : (Book.raise c.id dec x).runnerID = r := hid
    have hrec : (Book.raise c.id dec x).recorded = lentOf (d.raise r c.id dec r) := by
      rw [Book.recorded, if_pos hlive, raise_self]
      dsimp only [Book.raise]
      rw [hcs]
      rfl
    rw [hname, hrec]
    exact loan_le_lentOf
  · rw [if_neg hid] at hlive ⊢
    rw [raise_other dec hid]
    exact hcov x hx hlive

theorem inHand_raise {done rest : List ValveContainer} {books : List Book} {d : Daemon}
    {c c' : ValveContainer} (hin : InHand r (done ++ c :: rest) books d)
    (hc' : c'.toMemoryContainer = c.toMemoryContainer.setReal dec) :
    InHand r (done ++ c' :: rest) (setAt (·.runnerID) r (Book.raise c.id dec) books)
      (d.raise r c.id dec) := by
  have hnames : (((done ++ c :: rest).map (·.toMemoryContainer)).map (·.id)).Nodup :=
    (hin.order.map (·.id)).nodup_iff.mpr hin.names
  refine ⟨?_, ?_, ?_⟩
  · intro b hb hid
    obtain ⟨x, hx, rfl⟩ := mem_map.mp hb
    by_cases hx' : x.runnerID = r
    · rw [if_pos hx', raise_self]
      obtain ⟨hl, hcs⟩ := hin.book x hx hx'
      refine ⟨hl, ?_⟩
      dsimp only [Book.raise]
      rw [hcs]
      rfl
    · rw [if_neg hx'] at hid
      exact absurd hid hx'
  · -- the other containers in hand have other names
    have hset : (done ++ c' :: rest).map (·.toMemoryContainer) =
        setAt (·.id) c.id (MemoryContainer.setReal dec)
          ((done ++ c :: rest).map (·.toMemoryContainer)) := by
      rw [map_append, map_cons] at hnames ⊢
      rw [map_append, map_cons, hc']
      exact (setAt_middle (·.id) _ _ c.toMemoryContainer _ hnames).symm
    rw [hset, raise_self]
    exact hin.order.map _
  · have hkeys := map_setAt_same MemoryContainer.id MemoryContainer.id (d r) c.id
      (MemoryContainer.setReal dec) fun _ => rfl
    rw [raise_self]
    exact hkeys ▸ hin.names

theorem withinMeans_raise {tick : Tick} {order : List ValveContainer} {books : List Book}
    {d : Daemon} {host : HostMemory} {c : MemoryContainer}
    (hfloor : 0 ≤ rules.floorMB) (hn : ids.Nodup) (hr : r ∈ ids)
    (h : WithinMeans rules ids d₀ available cov books d host.availableMB) (hin : InHand r order books d)
    (hcov : cov → Covered d books) (hc : c ∈ d r) (hlimit : c.limitMB ≤ dec.limitMB)
    (hswap : c.swapMB ≤ dec.swapMB) (hafford : c.limitMB < dec.limitMB → tick.measured = true ∧
      dec.limitMB - c.limitMB ≤ max (rules.capacityMB - (books.map Book.recorded).sum) 0 ∧
      dec.limitMB - c.limitMB ≤ host.availableMB - rules.floorMB) :
    WithinMeans rules ids d₀ available cov (setAt (·.runnerID) r (Book.raise c.id dec) books)
      (d.raise r c.id dec) (tick.left host (dec.limitMB - c.limitMB)).availableMB := by
  have hbooks : (books.map (·.runnerID)).Nodup := by
    rw [h.names]
    exact hn
  have hrb : r ∈ books.map (·.runnerID) := by
    rw [h.names]
    exact hr
  have hraised : raisedMB ids d₀ (d.raise r c.id dec) =
      raisedMB ids d₀ d + (dec.limitMB - c.limitMB) := by
    unfold raisedMB
    rw [heldTotal_raise dec hin.names hc hn hr]
    omega
  have hlentTotal := lentTotal_raise dec hin.names hc hbooks hrb hlimit
  have hlent : cov → _ := fun hc => lentTotal_le d books (hcov hc)
  have hnonneg := h.nonneg
  have hspent := h.spent
  have hfree := h.free
  have hgrown : ∀ id, List.Forall₂ Grown (d₀ id) (d.raise r c.id dec id) := fun id =>
    forall₂_grown_trans _ (h.grown id)
      (grown_raise dec hin.names hc hlimit hswap)
  have hnames : (setAt (·.runnerID) r (Book.raise c.id dec) books).map (·.runnerID) = ids := by
    have hkeys := map_setAt_same Book.runnerID Book.runnerID books r (Book.raise c.id dec) fun _ => rfl
    exact hkeys.trans h.names
  rcases eq_or_lt_of_le hlimit with hsame | hmore
  · -- only swap was allowed
    have hzero : dec.limitMB - c.limitMB = 0 := by omega
    rw [hzero] at hraised hlentTotal ⊢
    have hleft : (tick.left host 0).availableMB ≤ max host.availableMB 0 := by
      unfold Tick.left
      split
      · rw [sub_zero]
      · exact le_max_left _ _
    refine ⟨hnames, hgrown, by omega, by omega, by omega, ?_⟩
    rcases h.lent with hlimits | ⟨hfl, hcap⟩
    · left
      intro id
      rw [limits_raise dec hin.names hc hsame.symm]
      exact hlimits id
    · exact .inr ⟨by omega, fun hyes => by have := hcap hyes; omega⟩
  · obtain ⟨hmeasured, hpool, hspare⟩ := hafford hmore
    have hleft : (tick.left host (dec.limitMB - c.limitMB)).availableMB =
        host.availableMB - (dec.limitMB - c.limitMB) := by
      unfold Tick.left
      rw [if_pos hmeasured]
      dsimp only
      omega
    refine ⟨hnames, hgrown, by omega, by omega, by omega, .inr ⟨by omega, fun hyes => ?_⟩⟩
    have := hlent hyes
    omega


end

section
variable (tick : Tick) (look : MemoryLook) (ids : List String) (d₀ : Daemon) (available : Int)
  (cov : Prop)

structure Decided (start p : Progress) : Prop where
  means : WithinMeans tick.rules ids d₀ available cov p.agent.books p.daemon p.host.availableMB
  covered : cov → Covered p.daemon p.agent.books
  others : ∀ id, id ≠ look.runnerID → p.daemon id = start.daemon id
  books : ∀ b ∈ p.agent.books, b.runnerID ≠ look.runnerID → b ∈ start.agent.books
  ceiling : held (p.daemon look.runnerID) ≤
    max (held (start.daemon look.runnerID)) look.rule.ceilingMB
  observed : look.observing = true → p.daemon = start.daemon
  taken : heldTotal p.daemon ids = heldTotal start.daemon ids + (p.taken - start.taken)
  unmeasured : tick.measured = false → p.host = start.host

variable {tick look ids d₀ available cov}

theorem Decided.trans (start p q : Progress) (h : Decided tick look ids d₀ available cov start p)
    (h' : Decided tick look ids d₀ available cov p q) :
    Decided tick look ids d₀ available cov start q := by
  refine ⟨h'.means, h'.covered, ?_, ?_, ?_, ?_, ?_, ?_⟩
  · intro id hid
    rw [h'.others id hid, h.others id hid]
  · intro b hb hid
    exact h.books b (h'.books b hb hid) hid
  · have h1 := h.ceiling
    have h2 := h'.ceiling
    omega
  · intro hobs
    rw [h'.observed hobs, h.observed hobs]
  · have h1 := h.taken
    have h2 := h'.taken
    omega
  · intro hm
    rw [h'.unmeasured hm, h.unmeasured hm]

variable (hfloor : 0 ≤ tick.rules.floorMB) (hn : ids.Nodup) (hr : look.runnerID ∈ ids)
  (hheard : ∀ id text, tick.outcome id ≠ .lost text)
include hfloor hn hr hheard

/-- One container decided on leaves the tick within its means. -/
theorem decided_container {done rest : List ValveContainer} {c : ValveContainer} {p : Progress}
    (hmeans : WithinMeans tick.rules ids d₀ available cov p.agent.books p.daemon p.host.availableMB)
    (hin : InHand look.runnerID (done ++ c :: rest) p.agent.books p.daemon)
    (hcov : cov → Covered p.daemon p.agent.books) {r : ValveContainer × Progress}
    (heffect : ContainerEffect tick look (done ++ c :: rest) c p r) :
    Decided tick look ids d₀ available cov p r.2 ∧
      InHand look.runnerID (done ++ r.1 :: rest) r.2.agent.books r.2.daemon := by
  cases heffect with
  | lost text hlost => exact absurd hlost (hheard _ _)
  | kept hdaemon hbooks hc hhost htaken =>
    constructor
    · refine ⟨?_, ?_, ?_, ?_, ?_, ?_, ?_, fun _ => hhost⟩
      · rw [hbooks, hdaemon, hhost]
        exact hmeans
      · rw [hdaemon, hbooks]
        exact hcov
      · intro id _
        rw [hdaemon]
      · rw [hbooks]
        exact fun b hb _ => hb
      · rw [hdaemon]
        exact le_max_left _ _
      · exact fun _ => hdaemon
      · rw [hdaemon, htaken]
        omega
    · rw [hbooks, hdaemon]
      refine ⟨hin.book, ?_, hin.names⟩
      have horder := hin.order
      rw [map_append, map_cons] at horder ⊢
      rw [hc]
      exact horder
  | raised d hobserving hlimit hswap hafford hdaemon hbooks hc hhost htaken =>
    have hmem : c.toMemoryContainer ∈ p.daemon look.runnerID := by
      refine hin.order.subset (mem_map.mpr ⟨c, ?_, rfl⟩)
      exact mem_append_right _ mem_cons_self
    have hlimitOf : look.limitOf = fun c => c.limitMB := by
      funext c
      rw [MemoryLook.limitOf, hobserving, if_neg Bool.false_ne_true]
    -- what the guard was told the runner holds is what the daemon holds
    have hheld : (guardInput tick look (done ++ c :: rest) c p).heldMB =
        held (p.daemon look.runnerID) := by
      have hsum := (hin.order.map fun c : MemoryContainer => c.limitMB).sum_eq
      rw [map_map] at hsum
      dsimp only [guardInput]
      rw [hlimitOf]
      exact hsum
    have hlim : (guardInput tick look (done ++ c :: rest) c p).limitMB = c.limitMB := by
      dsimp only [guardInput]
      rw [hlimitOf]
    have hpool : (guardInput tick look (done ++ c :: rest) c p).poolMB =
        max (tick.rules.capacityMB - (p.agent.books.map Book.recorded).sum) 0 := by
      dsimp only [guardInput]
      rw [hobserving, memoryPoolMB_eq]
    have hmoney : c.limitMB < d.limitMB → tick.measured = true ∧ d.limitMB - c.limitMB ≤
          max (tick.rules.capacityMB - (p.agent.books.map Book.recorded).sum) 0 ∧
        d.limitMB - c.limitMB ≤ p.host.availableMB - tick.rules.floorMB := by
      intro hlt
      have ha := hafford hlt
      have hp := ha.pool
      have hs := ha.spare
      rw [hlim] at hp hs
      rw [hpool] at hp
      exact ⟨ha.known, hp, hs⟩
    constructor
    · refine ⟨?_, ?_, ?_, ?_, ?_, ?_, ?_, ?_⟩
      · rw [hbooks, hdaemon, hhost]
        exact withinMeans_raise hfloor hn hr hmeans hin hcov hmem hlimit hswap hmoney
      · rw [hdaemon, hbooks]
        exact fun hyes => covered_raise hin (hcov hyes)
      · intro id hid
        rw [hdaemon]
        exact raise_other d hid
      · rw [hbooks]
        intro b hb hid
        obtain ⟨x, hx, rfl⟩ := mem_map.mp hb
        by_cases hx' : x.runnerID = look.runnerID
        · rw [if_pos hx'] at hid
          exact absurd hx' hid
        · rw [if_neg hx']
          exact hx
      · rw [hdaemon]
        have hnow := held_raise d hin.names hmem
        rcases eq_or_lt_of_le hlimit with hsame | hmore
        · omega
        have hroom := (hafford hmore).room
        have hceil : (guardInput tick look (done ++ c :: rest) c p).ceilingMB =
            look.rule.ceilingMB := rfl
        omega
      · intro hobs
        rw [hobserving] at hobs
        cases hobs
      · rw [hdaemon, htaken, heldTotal_raise d hin.names hmem hn hr]
        omega
      · intro hm
        rw [hhost, Tick.left, hm, if_neg Bool.false_ne_true]
    · rw [hbooks, hdaemon]
      exact inHand_raise hin hc

theorem decided_containers (done todo : List ValveContainer) (p : Progress)
    (hmeans : WithinMeans tick.rules ids d₀ available cov p.agent.books p.daemon p.host.availableMB)
    (hin : InHand look.runnerID (done ++ todo) p.agent.books p.daemon)
    (hcov : cov → Covered p.daemon p.agent.books) :
    Decided tick look ids d₀ available cov p (decideContainers tick look done todo p) := by
  induction todo generalizing done p with
  | nil =>
    rw [decideContainers]
    exact ⟨hmeans, hcov, fun _ _ => rfl, fun b hb _ => hb, le_max_left _ _, fun _ => rfl, by omega,
      fun _ => rfl⟩
  | cons c rest ih =>
    obtain ⟨hstep, hin'⟩ := decided_container hfloor hn hr hheard hmeans hin hcov
      decideContainer_effect
    refine hstep.trans _ _ _ (ih _ _ hstep.means ?_ hstep.covered)
    rw [append_assoc]
    exact hin'

end

structure TrueLook (look : MemoryLook) (books : List Book) (d : Daemon) : Prop where
  tracked : look.runnerID ∈ books.map (·.runnerID)
  book : ∀ b ∈ books, b.runnerID = look.runnerID →
    b.live = true ∧ b.handle = look.handle ∧ b.containers.isSome = true
  containers : look.containers.map (·.toMemoryContainer) = d look.runnerID
  names : ((d look.runnerID).map (·.id)).Nodup

def CoveredBut (r : String) (d : Daemon) (books : List Book) : Prop :=
  ∀ b ∈ books, b.live = true → b.runnerID ≠ r → loan (d b.runnerID) ≤ b.recorded

section
variable {look : MemoryLook} {books : List Book} {d : Daemon}

theorem lentTotal_adopt : lentTotal d (setAt (·.runnerID) look.runnerID (Book.adopt look) books) =
    lentTotal d books := by
  rw [lentTotal, setAt, map_map]
  congr 1
  apply map_congr_left
  intro b _
  rw [Function.comp]
  split
  · unfold Book.adopt
    split <;> rfl
  · rfl

theorem mem_of_mem_adopt {b : Book} (hid : b.runnerID ≠ look.runnerID)
    (hb : b ∈ setAt (·.runnerID) look.runnerID (Book.adopt look) books) : b ∈ books := by
  obtain ⟨x, hx, rfl⟩ := mem_map.mp hb
  by_cases hx' : x.runnerID = look.runnerID
  · refine absurd ?_ hid
    rw [if_pos hx', Book.adopt]
    split
    · exact hx'
    · exact hx'
  · rw [if_neg hx']
    exact hx

theorem inHand_adopt (htrue : TrueLook look books d) :
    InHand look.runnerID (sortStableFunc look.compareContainers look.containers)
      (setAt (·.runnerID) look.runnerID (Book.adopt look) books) d := by
  refine ⟨?_, ?_, htrue.names⟩
  · intro b hb hid
    obtain ⟨x, hx, rfl⟩ := mem_map.mp hb
    by_cases hx' : x.runnerID = look.runnerID
    · obtain ⟨hl, hh, hsome⟩ := htrue.book x hx hx'
      rw [if_pos hx', Book.adopt, if_pos hh]
      refine ⟨hl, ?_⟩
      obtain ⟨cs, hcs⟩ := Option.isSome_iff_exists.mp hsome
      rw [hcs, Option.map_some, htrue.containers]
    · rw [if_neg hx'] at hid
      exact absurd hid hx'
  · rw [← htrue.containers]
    exact sortStableFunc_perm.map _

theorem covered_adopt (htrue : TrueLook look books d) (hcov : CoveredBut look.runnerID d books) :
    Covered d (setAt (·.runnerID) look.runnerID (Book.adopt look) books) := by
  have hin := inHand_adopt htrue
  intro b hb hlive
  by_cases hid : b.runnerID = look.runnerID
  · obtain ⟨-, hcs⟩ := hin.book b hb hid
    rw [Book.recorded, if_pos hlive, hcs, hid]
    exact loan_le_lentOf
  exact hcov b (mem_of_mem_adopt hid hb) hlive hid

end

section
variable (tick : Tick) (ids : List String) (d₀ : Daemon) (available : Int) (cov : Prop)

structure Looked (look : MemoryLook) (s s' : Round) : Prop where
  means : WithinMeans tick.rules ids d₀ available cov s'.agent.books s'.daemon s'.host.availableMB
  covered : cov → Covered s'.daemon s'.agent.books
  others : ∀ id, id ≠ look.runnerID → s'.daemon id = s.daemon id
  books : ∀ b ∈ s'.agent.books, b.runnerID ≠ look.runnerID → b ∈ s.agent.books
  ceiling : held (s'.daemon look.runnerID) ≤ max (held (s.daemon look.runnerID)) look.rule.ceilingMB
  observed : look.observing = true → s'.daemon = s.daemon

variable {tick ids d₀ available cov}

theorem finish_keeps {look : MemoryLook} {code : MemoryValveCode} {reason : String}
    {hot near : Bool} {now : Int} {v : MemoryValve} :
    (MemoryValve.finish look code reason hot near now v).rule = v.rule ∧
      (MemoryValve.finish look code reason hot near now v).containers = v.containers := by
  unfold MemoryValve.finish
  cases look.err with
  | none => exact ⟨rfl, rfl⟩
  | some why =>
    dsimp only
    by_cases hfail : v.lookFailures + 1 ≥ memoryFailedLooks ∧ code = .healthy
    · rw [if_pos hfail]
      exact ⟨rfl, rfl⟩
    · rw [if_neg hfail]
      exact ⟨rfl, rfl⟩

theorem finish_books {a : AgentState} {look : MemoryLook} {code : MemoryValveCode}
    {reason : String} {hot near : Bool} {now : Int} : (a.onSameValve look.runnerID look.handle
      (MemoryValve.finish look code reason hot near now)).books = a.books :=
  books_onSameValve _
    (fun v => finish_keeps.1)
    (fun v => by rw [finish_keeps.2])

/-- One look, decided on, leaves the tick within its means. -/
theorem looked (hfloor : 0 ≤ tick.rules.floorMB) (hn : ids.Nodup)
    (hheard : ∀ id text, tick.outcome id ≠ .lost text) {look : MemoryLook} {s : Round}
    (hmeans : WithinMeans tick.rules ids d₀ available cov s.agent.books s.daemon s.host.availableMB)
    (htrue : TrueLook look s.agent.books s.daemon)
    (hcov : cov → CoveredBut look.runnerID s.daemon s.agent.books) :
    Looked tick ids d₀ available cov look s (decideLook tick s look) := by
  have hr : look.runnerID ∈ ids := by
    rw [← hmeans.names]
    exact htrue.tracked
  set a := s.agent.adoptMemoryLook look tick.now with ha
  have hbooks : a.books = setAt (·.runnerID) look.runnerID (Book.adopt look) s.agent.books :=
    books_adopt
  have hkeys : a.books.map (·.runnerID) = ids := by
    rw [hbooks]
    refine (map_setAt_same Book.runnerID Book.runnerID s.agent.books look.runnerID (Book.adopt look) ?_).trans
      hmeans.names
    intro b
    unfold Book.adopt
    split <;> rfl
  have hmeans' : WithinMeans tick.rules ids d₀ available cov a.books s.daemon s.host.availableMB := by
    refine ⟨hkeys, hmeans.grown, hmeans.nonneg, hmeans.spent, hmeans.free, ?_⟩
    rw [hbooks, lentTotal_adopt]
    exact hmeans.lent
  have hin : InHand look.runnerID (sortStableFunc look.compareContainers look.containers) a.books
      s.daemon := by
    rw [hbooks]
    exact inHand_adopt htrue
  have hcov' : cov → Covered s.daemon a.books := by
    rw [hbooks]
    exact fun hyes => covered_adopt htrue (hcov hyes)
  have hdec := decided_containers hfloor hn hr hheard []
    (sortStableFunc look.compareContainers look.containers)
    { agent := a, daemon := s.daemon, host := s.host } hmeans' hin hcov'
  set p := decideContainers tick look [] (sortStableFunc look.compareContainers look.containers)
    { agent := a, daemon := s.daemon, host := s.host } with hp
  have hfinal : (decideLook tick s look).agent.books = p.agent.books :=
    finish_books
  have hdaemon : (decideLook tick s look).daemon = p.daemon := rfl
  have htaken := hdec.taken
  dsimp only at htaken
  have hraised : raisedMB ids d₀ p.daemon = raisedMB ids d₀ s.daemon + p.taken := by
    unfold raisedMB
    omega
  have hspent := hdec.means.spent
  have hfree := hmeans.free
  have hhost : (decideLook tick s look).host.availableMB + raisedMB ids d₀ p.daemon ≤
      max available 0 := by
    change (if tick.measured = true then
      { s.host with availableMB := max (s.host.availableMB - p.taken) 0 } else s.host).availableMB +
      _ ≤ _
    split
    · dsimp only
      omega
    rename_i hm
    have hsame := hdec.unmeasured (Bool.eq_false_iff.mpr hm)
    have hlocal := hdec.means.free
    rw [hsame] at hlocal
    exact hlocal
  refine ⟨?_, ?_, ?_, ?_, hdec.ceiling, hdec.observed⟩
  · rw [hfinal, hdaemon]
    exact ⟨hdec.means.names, hdec.means.grown, hdec.means.nonneg, hdec.means.spent, hhost,
      hdec.means.lent⟩
  · rw [hfinal, hdaemon]
    exact hdec.covered
  · exact hdec.others
  rw [hfinal]
  intro b hb hid
  have hmem := hdec.books b hb hid
  rw [hbooks] at hmem
  exact mem_of_mem_adopt hid hmem

/-- The looks one after the other: only the first is decided on before it is adopted. -/
theorem all_looked (hfloor : 0 ≤ tick.rules.floorMB) (hn : ids.Nodup)
    (hheard : ∀ id text, tick.outcome id ≠ .lost text) {looks : List MemoryLook} (s : Round)
    (hmeans : WithinMeans tick.rules ids d₀ available cov s.agent.books s.daemon s.host.availableMB)
    (hdistinct : (looks.map (·.runnerID)).Nodup)
    (htrue : ∀ look ∈ looks, TrueLook look s.agent.books s.daemon)
    (hcov : cov → ∀ first, looks.head? = some first →
      CoveredBut first.runnerID s.daemon s.agent.books) :
    let s' := looks.foldl (decideLook tick) s
    WithinMeans tick.rules ids d₀ available cov s'.agent.books s'.daemon s'.host.availableMB ∧
      (∀ id, id ∉ looks.map (·.runnerID) → s'.daemon id = s.daemon id) ∧
      ∀ look ∈ looks, held (s'.daemon look.runnerID) ≤
          max (held (s.daemon look.runnerID)) look.rule.ceilingMB ∧
        (look.observing = true → s'.daemon look.runnerID = s.daemon look.runnerID) := by
  induction looks generalizing s with
  | nil => exact ⟨hmeans, fun _ _ => rfl, fun look hlook => nomatch hlook⟩
  | cons first rest ih =>
    rw [map_cons, nodup_cons] at hdistinct
    have h := looked hfloor hn hheard hmeans (htrue first mem_cons_self) fun hyes =>
      hcov hyes first rfl
    have hother : ∀ look ∈ rest, look.runnerID ≠ first.runnerID := by
      intro look hlook he
      exact hdistinct.1 (he ▸ mem_map_of_mem hlook)
    -- the runners still to come are as they were at the start
    have htrue' : ∀ look ∈ rest,
        TrueLook look (decideLook tick s first).agent.books (decideLook tick s first).daemon := by
      intro look hlook
      have ht := htrue look (mem_cons_of_mem _ hlook)
      have hsame := h.others look.runnerID (hother look hlook)
      refine ⟨?_, ?_, ?_, ?_⟩
      · rw [h.means.names, ← hmeans.names]
        exact ht.tracked
      · intro b hb hid
        refine ht.book b (h.books b hb ?_) hid
        rw [hid]
        exact hother look hlook
      · rw [hsame]
        exact ht.containers
      · rw [hsame]
        exact ht.names
    obtain ⟨hm, hout, hlooks⟩ := ih (decideLook tick s first) h.means hdistinct.2 htrue'
      fun hyes x _ b hb hlive _ => h.covered hyes b hb hlive
    refine ⟨hm, ?_, ?_⟩
    · intro id hid
      rw [map_cons, mem_cons, not_or] at hid
      exact (hout id hid.2).trans (h.others id hid.1)
    intro look hlook
    rcases mem_cons.mp hlook with rfl | hlook
    · have hlast := hout look.runnerID hdistinct.1
      rw [foldl_cons, hlast]
      refine ⟨h.ceiling, fun hobs => ?_⟩
      rw [h.observed hobs]
    have hfirst := h.others look.runnerID (hother look hlook)
    obtain ⟨hceil, hobs⟩ := hlooks look hlook
    rw [hfirst] at hceil hobs
    exact ⟨hceil, hobs⟩


end

/-- As long as no answer to a raise is lost: limits only rise, a rise leaves the host above its floor
and, where the books but for the runner decided on first say no less than the daemon, the loans within
the capacity, no runner passes its ceiling, and an observing runner is left alone. -/
theorem guard_within_means (tick : Tick) (looks : List MemoryLook) (s : Round)
    (hids : (s.agent.runners.map (·.runnerID)).Nodup)
    (hdistinct : (looks.map (·.runnerID)).Nodup)
    (htrue : ∀ look ∈ looks, TrueLook look s.agent.books s.daemon)
    (hfloor : 0 ≤ tick.rules.floorMB) (hheard : ∀ id text, tick.outcome id ≠ .lost text) :
    let s' := s.guardMemory tick looks
    (∀ id, List.Forall₂ Grown (s.daemon id) (s'.daemon id)) ∧
      ((∃ id, (s'.daemon id).map (·.limitMB) ≠ (s.daemon id).map (·.limitMB)) →
        tick.rules.floorMB ≤ s.host.availableMB -
            raisedMB (s.agent.runners.map (·.runnerID)) s.daemon s'.daemon ∧
          ((∀ first, (sortStableFunc comparePressure looks).head? = some first →
              CoveredBut first.runnerID s.daemon s.agent.books) →
            lentTotal s'.daemon s'.agent.books ≤ tick.rules.capacityMB)) ∧
      ∀ look ∈ looks, held (s'.daemon look.runnerID) ≤
          max (held (s.daemon look.runnerID)) look.rule.ceilingMB ∧
        (look.observing = true → s'.daemon look.runnerID = s.daemon look.runnerID) := by
  have hperm := @sortStableFunc_perm _ comparePressure looks
  have hnone : raisedMB (s.agent.runners.map (·.runnerID)) s.daemon s.daemon = 0 := sub_self _
  have hstart : WithinMeans tick.rules (s.agent.runners.map (·.runnerID)) s.daemon
      s.host.availableMB (∀ first, (sortStableFunc comparePressure looks).head? = some first →
        CoveredBut first.runnerID s.daemon s.agent.books) s.agent.books s.daemon
      s.host.availableMB := by
    refine ⟨?_, fun id => forall₂_same.mpr fun c _ => Grown.refl c, by omega, by omega,
      by omega, .inl fun _ => rfl⟩
    rw [AgentState.books, map_map]
    rfl
  obtain ⟨hmeans, -, hlooks⟩ := all_looked hfloor hids hheard s
    hstart ((hperm.map _).nodup_iff.mpr hdistinct)
    (fun look hlook => htrue look (hperm.subset hlook)) id
  refine ⟨hmeans.grown, ?_, fun look hlook => hlooks look (hperm.symm.subset hlook)⟩
  rintro ⟨id, hid⟩
  rcases hmeans.lent with hsame | hlent
  · exact absurd (hsame id) hid
  · exact hlent

section

def valveRule (runnerID : String) : ElasticMemoryRunner :=
  { runnerID := runnerID, mode := .automatic, guaranteeMB := 1000, ceilingMB := 4000 }

def twoRunners : Daemon := fun id =>
  if id = "run_a" then [{ id := "a", guaranteeMB := 1000, limitMB := 1000 }]
  else if id = "run_b" then [{ id := "b", guaranteeMB := 1000, limitMB := 2000 }]
  else []

def restarted : AgentState :=
  AgentState.applyMemoryDirective
    { runners := [{ runnerID := "run_a", handle := "wl-a" }, { runnerID := "run_b", handle := "wl-b" }] }
    (some { capacityMB := 1500, floorMB := 1000, runners := [valveRule "run_a", valveRule "run_b"] })

def lookAt (runnerID handle : String) (usageMB : Int) : MemoryLook :=
  { runnerID := runnerID
    handle := handle
    rule := valveRule runnerID
    containers := (twoRunners runnerID).map fun c =>
      { c with virtualLimitMB := c.limitMB, virtualSwapMB := c.swapMB }
    usageMB := fun _ => usageMB }

def quietDaemon (rules : MemoryRules) : Tick :=
  { rules := rules, measured := true, now := 0, outcome := fun _ => .done }

def atStart (a : AgentState) : Round :=
  { agent := a, daemon := twoRunners, host := { availableMB := 8000, swapFreeMB := 0 } }

def settled : AgentState :=
  restarted.adoptMemoryLook (lookAt "run_b" "wl-b" 100) 0

theorem guard_within_means_settled :
    let s' := (atStart settled).guardMemory (quietDaemon restarted.memory)
      [lookAt "run_a" "wl-a" 1400]
    (s'.daemon "run_a").map (·.limitMB) = [1500] ∧ lentTotal s'.daemon s'.agent.books ≤ 1500 := by
  intro s'
  have hlimit : (s'.daemon "run_a").map (·.limitMB) = [1500] := by decide +kernel
  refine ⟨hlimit, ?_⟩
  have h := guard_within_means (quietDaemon restarted.memory) [lookAt "run_a" "wl-a" 1400]
    (atStart settled) (by decide +kernel) (by decide +kernel) ?_ (by decide +kernel)
    fun _ _ => nofun
  · refine (h.2.1 ⟨"run_a", ?_⟩).2 ?_
    · rw [hlimit]
      decide +kernel
    intro first hfirst
    have hname : first.runnerID = "run_a" :=
      (congrArg MemoryLook.runnerID (Option.some.inj hfirst)).symm
    rw [hname]
    unfold CoveredBut
    decide +kernel
  · intro look hlook
    rw [mem_singleton.mp hlook]
    exact ⟨by decide +kernel, by decide +kernel, by decide +kernel, by decide +kernel⟩

def lostAnswer (rules : MemoryRules) : Tick :=
  { quietDaemon rules with outcome := fun id => if id = "a" then .lost "deadline" else .done }

/-- The runner without a loan is raised first, out of a pool the other has already drawn on. With the
books right, a raise whose answer is lost is lent once more to the other. -/
theorem restarted_overlends :
    let s' := (atStart restarted).guardMemory (quietDaemon restarted.memory)
      [lookAt "run_a" "wl-a" 1400, lookAt "run_b" "wl-b" 100]
    let l' := (atStart settled).guardMemory (lostAnswer restarted.memory)
      [lookAt "run_a" "wl-a" 1400, lookAt "run_b" "wl-b" 1950]
    (s'.daemon "run_a").map (·.limitMB) = [1856] ∧ (s'.daemon "run_b").map (·.limitMB) = [2000] ∧
      lentTotal s'.daemon s'.agent.books = 1856 ∧ restarted.memory.capacityMB = 1500 ∧
      (l'.daemon "run_a").map (·.limitMB) = [1500] ∧ (l'.daemon "run_b").map (·.limitMB) = [2500] ∧
      lentTotal l'.daemon l'.agent.books = 2000 := by
  decide +kernel

end

end Zoomies.Agent
