import Mathlib.Algebra.Order.BigOperators.Group.List
import Zoomies.AgentMemoryValve
import Zoomies.RowTable

/-! The agent's record of each runner's containers, next to what the daemon holds. -/
namespace Zoomies.Agent
open List

structure Book where
  runnerID : String
  handle : String
  live : Bool
  ruled : Bool
  containers : Option (List MemoryContainer)

def Tracked.book (t : Tracked) : Book :=
  { runnerID := t.runnerID
    handle := t.handle
    live := !(t.terminal || t.hostRemoved)
    ruled := t.valve.any fun v => v.rule.isSome
    containers := t.valve.map fun v => v.containers.map (·.toMemoryContainer) }

def AgentState.books (a : AgentState) : List Book := a.runners.map Tracked.book

variable (cs : List MemoryContainer)

def held : Int := (cs.map (·.limitMB)).sum

def loan : Int := (cs.map fun c => c.limitMB - c.guaranteeMB).sum

def lentOf : Int := (cs.map fun c => lent c.limitMB c.guaranteeMB).sum

def Book.recorded (b : Book) : Int := if b.live then lentOf (b.containers.getD []) else 0

theorem loan_le_lentOf {cs : List MemoryContainer} : loan cs ≤ lentOf cs :=
  sum_le_sum fun _ _ => le_max_left _ _

theorem lentOf_nonneg {cs : List MemoryContainer} : 0 ≤ lentOf cs := by
  apply sum_nonneg
  intro x hx
  obtain ⟨c, -, rfl⟩ := mem_map.mp hx
  exact le_max_right _ _

theorem recorded_nonneg {b : Book} : 0 ≤ b.recorded := by
  unfold Book.recorded
  split
  · exact lentOf_nonneg
  · exact le_refl _

theorem counted_eq {t : Tracked} : t.counted false = t.book.recorded := by
  unfold Tracked.counted Book.recorded Tracked.book
  cases t.valve with
  | none => simp [lentOf]
  | some v =>
    cases hend : (t.terminal || t.hostRemoved) with
    | true => simp
    | false =>
      simp only [Bool.false_and, Bool.false_eq_true, ↓reduceIte, Bool.not_false,
        Option.map_some, Option.getD_some, MemoryValve.lentMB, lentOf, map_map]
      rfl

theorem memoryPoolMB_eq (a : AgentState) (rules : MemoryRules) : a.memoryPoolMB rules false =
      max (rules.capacityMB - (a.books.map Book.recorded).sum) 0 := by
  have hsum : (a.runners.map fun t => t.counted false) = a.books.map Book.recorded := by
    rw [AgentState.books, map_map]
    exact map_congr_left fun t _ => counted_eq
  rw [AgentState.memoryPoolMB, hsum]

def heldTotal (d : Daemon) (ids : List String) : Int := (ids.map fun id => held (d id)).sum

section
variable (d : Daemon) (books : List Book)

def Book.owed (d : Daemon) (b : Book) : Int :=
  if b.live ∧ (b.ruled ∨ 0 < loan (d b.runnerID)) then loan (d b.runnerID) else 0

def lentTotal : Int := (books.map (Book.owed d)).sum

def Covered : Prop := ∀ b ∈ books, b.live = true → loan (d b.runnerID) ≤ b.recorded

theorem lentTotal_le (h : Covered d books) : lentTotal d books ≤ (books.map Book.recorded).sum := by
  apply sum_le_sum
  intro b hb
  unfold Book.owed
  split
  · rename_i hc
    exact h b hb hc.1
  · exact recorded_nonneg

end

section
variable {a : AgentState} {id : String}

section
variable (f : MemoryValve → MemoryValve) (hrule : ∀ v, (f v).rule = v.rule)
  (hcontainers : ∀ v, (f v).containers.map (·.toMemoryContainer) =
    v.containers.map (·.toMemoryContainer))
include hrule hcontainers

theorem book_onValve (t : Tracked) : (t.onValve f).book = t.book := by
  unfold Tracked.book Tracked.onValve
  cases t.valve with
  | none => rfl
  | some v => simp [hrule, hcontainers]

theorem books_onValve : (a.onValve id f).books = a.books :=
  map_setAt_same _ Tracked.book a.runners id _ (book_onValve f hrule hcontainers)

theorem books_onSameValve {handle : String} : (a.onSameValve id handle f).books = a.books := by
  apply map_setAt_same _ Tracked.book a.runners id
  intro t
  unfold Tracked.onSameValve
  split
  · exact book_onValve f hrule hcontainers t
  · rfl

end

def Book.adopt (look : MemoryLook) (b : Book) : Book :=
  if b.handle = look.handle then
    { b with
      containers := b.containers.map fun _ => look.containers.map (·.toMemoryContainer) }
  else b

theorem books_adopt {look : MemoryLook} {now : Int} : (a.adoptMemoryLook look now).books =
    setAt (·.runnerID) look.runnerID (Book.adopt look) a.books := by
  apply map_setAt _ Tracked.book (·.runnerID) fun _ => rfl
  intro t
  rw [Tracked.onSameValve, Book.adopt]
  by_cases hh : t.handle = look.handle
  · have hbook : t.book.handle = look.handle := hh
    rw [if_pos hh, if_pos hbook]
    unfold Tracked.book Tracked.onValve
    cases t.valve with
    | none => rfl
    | some v => rfl
  · have hbook : ¬t.book.handle = look.handle := hh
    rw [if_neg hh, if_neg hbook]

def Book.raise (container : String) (dec : MemoryGuardDecision) (b : Book) : Book :=
  { b with
    containers := b.containers.map (setAt (·.id) container (MemoryContainer.setReal dec)) }

theorem books_setReal (container : String) (dec : MemoryGuardDecision) :
    (a.onValve id (MemoryValve.setReal container dec)).books =
      setAt (·.runnerID) id (Book.raise container dec) a.books := by
  apply map_setAt _ Tracked.book (·.runnerID) fun _ => rfl
  intro t
  unfold Tracked.book Tracked.onValve Book.raise
  cases t.valve with
  | none => rfl
  | some v =>
    dsimp only [Option.map_some, MemoryValve.setReal]
    rw [map_setAt _ ValveContainer.toMemoryContainer (·.id) (fun _ => rfl) v.containers (MemoryContainer.setReal dec) fun _ => rfl]
    rfl

end

section
variable (tick : Tick) (look : MemoryLook) (order : List ValveContainer) (c : ValveContainer)
  (p : Progress)

def Tick.left (tick : Tick) (host : HostMemory) (give : Int) : HostMemory :=
  if tick.measured then { host with availableMB := max (host.availableMB - give) 0 } else host

inductive ContainerEffect (r : ValveContainer × Progress) : Prop
  | kept (hdaemon : r.2.daemon = p.daemon) (hbooks : r.2.agent.books = p.agent.books)
      (hc : r.1.toMemoryContainer = c.toMemoryContainer) (hhost : r.2.host = p.host)
      (htaken : r.2.taken = p.taken)
  | raised (d : MemoryGuardDecision) (hobserving : look.observing = false)
      (hlimit : c.limitMB ≤ d.limitMB) (hswap : c.swapMB ≤ d.swapMB)
      (hafford : c.limitMB < d.limitMB → Affordable (guardInput tick look order c p) d.limitMB)
      (hdaemon : r.2.daemon = p.daemon.raise look.runnerID c.id d)
      (hbooks : r.2.agent.books =
        setAt (·.runnerID) look.runnerID (Book.raise c.id d) p.agent.books)
      (hc : r.1.toMemoryContainer = c.toMemoryContainer.setReal d)
      (hhost : r.2.host = tick.left p.host (d.limitMB - c.limitMB))
      (htaken : r.2.taken = p.taken + (d.limitMB - c.limitMB))
  | lost (text : String) (h : tick.outcome c.id = .lost text)

variable {look tick c p order}

theorem noted_watched {d : MemoryGuardDecision} :
    (noted d (watched tick look c p)).agent = p.agent ∧
      (noted d (watched tick look c p)).daemon = p.daemon ∧
      (noted d (watched tick look c p)).host = p.host ∧
      (noted d (watched tick look c p)).taken = p.taken := by
  unfold noted
  split
  · exact ⟨rfl, rfl, rfl, rfl⟩
  · exact ⟨rfl, rfl, rfl, rfl⟩

theorem books_setVirtual (a : AgentState) (id container : String) (d : MemoryGuardDecision) :
    (a.onValve id (MemoryValve.setVirtual container d)).books = a.books := by
  refine books_onValve _ (fun _ => rfl) fun v => ?_
  exact map_setAt_same _ ValveContainer.toMemoryContainer v.containers container _ fun _ => rfl

theorem books_memoryFailure (a : AgentState) (e : RaiseError) :
    (a.memoryFailure look e).1.books = a.books := by
  have hwarn : ∀ text, (a.onValve look.runnerID (MemoryValve.warn text)).books = a.books := by
    intro text
    refine books_onValve _ (fun v => ?_) fun v => ?_
    · unfold MemoryValve.warn
      split <;> rfl
    · unfold MemoryValve.warn
      split <;> rfl
  cases e with
  | notFound | other text => exact hwarn _
  | unsupported text => rfl

theorem raiseContainer_effect {d : MemoryGuardDecision} {q : Progress}
    (hobserving : look.observing = false) (hlimit : c.limitMB ≤ d.limitMB)
    (hswap : c.swapMB ≤ d.swapMB)
    (hafford : c.limitMB < d.limitMB → Affordable (guardInput tick look order c p) d.limitMB)
    (hagent : q.agent = p.agent) (hdaemon : q.daemon = p.daemon) (hhost : q.host = p.host)
    (htaken : q.taken = p.taken) :
    ContainerEffect tick look order c p (raiseContainer tick look c d q) := by
  unfold raiseContainer
  cases hout : tick.outcome c.id with
  | lost text => exact .lost text hout
  | done =>
    refine .raised d hobserving hlimit hswap hafford ?_ ?_ rfl ?_ ?_
    · rw [hdaemon]
    · rw [hagent, books_setReal]
    · rw [hhost]
      rfl
    · rw [htaken]
  | refused e =>
    cases e with
    | notFound => exact .kept hdaemon (by rw [hagent]) rfl hhost htaken
    | unsupported text | other text =>
      refine .kept hdaemon ?_ rfl hhost htaken
      rw [books_memoryFailure, hagent]

theorem decideContainer_effect :
    ContainerEffect tick look order c p (decideContainer tick look order c p) := by
  unfold decideContainer
  dsimp only
  obtain ⟨hagent, hdaemon, hhost, htaken⟩ :=
    noted_watched
  obtain ⟨hlimit, hswap, hafford⟩ := guardMemory_spec
  split
  · exact .kept hdaemon (by rw [hagent]) rfl hhost htaken
  split
  · refine .kept hdaemon ?_ rfl hhost htaken
    rw [books_setVirtual, hagent]
  rename_i hobserving
  have hreal : look.observing = false := Bool.eq_false_iff.mpr hobserving
  have hl : (guardInput tick look order c p).limitMB = c.limitMB := by
    dsimp only [guardInput, MemoryLook.limitOf]
    rw [hreal, if_neg Bool.false_ne_true]
  have hs : (guardInput tick look order c p).swapMB = c.swapMB := by
    dsimp only [guardInput, MemoryLook.swapOf]
    rw [hreal, if_neg Bool.false_ne_true]
  rw [hl] at hlimit hafford
  rw [hs] at hswap
  exact raiseContainer_effect hreal hlimit hswap hafford hagent hdaemon hhost htaken

end

structure Grown (c c' : MemoryContainer) : Prop where
  id : c'.id = c.id
  guaranteeMB : c'.guaranteeMB = c.guaranteeMB
  limitMB : c.limitMB ≤ c'.limitMB
  swapMB : c.swapMB ≤ c'.swapMB

theorem Grown.refl (c : MemoryContainer) : Grown c c := ⟨rfl, rfl, le_refl _, le_refl _⟩

theorem Grown.trans (a b c : MemoryContainer) (h : Grown a b) (h' : Grown b c) : Grown a c :=
  ⟨h'.id.trans h.id, h'.guaranteeMB.trans h.guaranteeMB, h.limitMB.trans h'.limitMB,
    h.swapMB.trans h'.swapMB⟩

section
variable {d : Daemon} {r : String} {c : MemoryContainer} (dec : MemoryGuardDecision)

theorem raise_self : d.raise r c.id dec r =
    setAt (·.id) c.id (MemoryContainer.setReal dec) (d r) := if_pos rfl

theorem raise_other {id : String} (h : id ≠ r) : d.raise r c.id dec id = d id := if_neg h

variable (hids : ((d r).map (·.id)).Nodup) (hc : c ∈ d r)
include hids hc

theorem held_raise : held (d.raise r c.id dec r) = held (d r) + (dec.limitMB - c.limitMB) := by
  rw [raise_self]
  exact sum_setAt (·.id) hids hc (MemoryContainer.setReal dec) (·.limitMB)

theorem loan_raise : loan (d.raise r c.id dec r) = loan (d r) + (dec.limitMB - c.limitMB) := by
  rw [raise_self, loan, sum_setAt (·.id) hids hc (MemoryContainer.setReal dec)
    fun c => c.limitMB - c.guaranteeMB]
  unfold loan MemoryContainer.setReal
  dsimp only
  omega

theorem grown_raise (hlimit : c.limitMB ≤ dec.limitMB) (hswap : c.swapMB ≤ dec.swapMB)
    {id : String} : List.Forall₂ Grown (d id) (d.raise r c.id dec id) := by
  by_cases hid : id = r
  · subst hid
    rw [raise_self]
    refine forall₂_setAt (·.id) Grown.refl fun a ha hac => ?_
    rw [inj_on_of_nodup_map hids ha hc hac]
    exact ⟨rfl, rfl, hlimit, hswap⟩
  · rw [raise_other dec hid]
    exact forall₂_same.mpr fun a _ => Grown.refl a

theorem limits_raise (hsame : dec.limitMB = c.limitMB) {id : String} :
    (d.raise r c.id dec id).map (·.limitMB) = (d id).map (·.limitMB) := by
  by_cases hid : id = r
  · subst hid
    rw [raise_self, setAt, map_map]
    apply map_congr_left
    intro a ha
    rw [Function.comp]
    split
    · rename_i hac
      rw [inj_on_of_nodup_map hids ha hc hac]
      exact hsame
    · rfl
  · rw [raise_other dec hid]

theorem heldTotal_raise {ids : List String} (hn : ids.Nodup) (hr : r ∈ ids) :
    heldTotal (d.raise r c.id dec) ids = heldTotal d ids + (dec.limitMB - c.limitMB) := by
  have hn' : (ids.map fun id => id).Nodup := by rwa [map_id']
  rw [heldTotal, heldTotal, sum_change (fun id => id) hn' hr (fun id => held (d id))]
  · rw [held_raise dec hids hc]
    omega
  · intro id _ hne
    rw [raise_other dec hne]

/-- A raise lends no more than it adds. -/
theorem lentTotal_raise {books : List Book} (hn : (books.map (·.runnerID)).Nodup)
    (hr : r ∈ books.map (·.runnerID)) (hlimit : c.limitMB ≤ dec.limitMB) :
    lentTotal (d.raise r c.id dec) (setAt (·.runnerID) r (Book.raise c.id dec) books) ≤
      lentTotal d books + (dec.limitMB - c.limitMB) := by
  obtain ⟨b, hb, hid⟩ := mem_map.mp hr
  have hloan := loan_raise dec hids hc
  rw [lentTotal, lentTotal, setAt, map_map, sum_change (·.runnerID) hn hb (Book.owed d)]
  · have howed : Book.owed (d.raise r c.id dec) (Book.raise c.id dec b) ≤
        Book.owed d b + (dec.limitMB - c.limitMB) := by
      have hlive : (Book.raise c.id dec b).live = b.live := rfl
      have hruled : (Book.raise c.id dec b).ruled = b.ruled := rfl
      have hname : (Book.raise c.id dec b).runnerID = r := hid
      unfold Book.owed
      rw [hlive, hruled, hname, hloan, hid]
      split
      · rename_i hnow
        split
        · exact le_refl _
        rename_i hbefore
        -- not ruled and not lent to before, so its loan was not above nothing
        have hle : loan (d r) ≤ 0 := by
          by_contra hpos
          exact hbefore ⟨hnow.1, .inr (by omega)⟩
        omega
      · split
        · rename_i hnow hbefore
          refine absurd ⟨hbefore.1, ?_⟩ hnow
          rcases hbefore.2 with hb | hb
          · exact .inl hb
          · exact .inr (by omega)
        · omega
    have hat : (Book.owed (d.raise r c.id dec) ∘ fun b : Book =>
        if b.runnerID = r then Book.raise c.id dec b else b) b =
        Book.owed (d.raise r c.id dec) (Book.raise c.id dec b) := by
      rw [Function.comp, if_pos hid]
    omega
  · intro x _ hne
    rw [hid] at hne
    rw [Function.comp, if_neg hne, Book.owed, Book.owed, raise_other dec hne]

end

end Zoomies.Agent
