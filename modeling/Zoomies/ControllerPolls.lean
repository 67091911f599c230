import Zoomies.ControllerTasks

/-! The long poll on a host's queue. A task is added under the lock and the token that wakes the poll
is sent after it, so the poll may look in between. -/
namespace Zoomies.Controller
open Zoomies.Go List

structure TaskBatch where
  tasks : List Task := []
  backoff : Duration := 0
  deriving DecidableEq

structure HostQueue where
  -- The queue, its wake channel, which holds one token or none, and the poll that has set
  -- `polling`. `sent` only counts the tokens put in.
  tasks : TaskQueue := {}
  wake : Bool := false
  polling : Option Nat := none
  sent : Nat := 0

inductive QueueCaller
  -- `woken` says of a poll that a token ended its wait
  | enqueue (t : Task)
  | redeliver (taskID : String)
  | sweep
  | send
  | poll
  | look (woken : Bool)
  | wait
  | leave (batch : TaskBatch) (woken : Bool)
  | returned (batch : TaskBatch) (woken : Bool)
  deriving DecidableEq

inductive PollEvent
  | cancelled
  | timer (shed : Duration)
  | wake

structure PollTick where
  now : Time := 0
  walk : List LeasedTask := []
  mayAct : Bool := true
  event : PollEvent := .wake

def requeued (walk : List LeasedTask) (now : Time) : List LeasedTask :=
  (walk.filter (·.expired now)).filter fun lt => !lt.spent

def notify (added : Bool) : QueueCaller := if added then .send else .returned {} false

def QueueCaller.step (s : HostQueue) (i : Nat) (e : PollTick) :
    QueueCaller → Option (HostQueue × QueueCaller)
  | enqueue t =>
    some ({ s with tasks := (s.tasks.enqueue t).1 }, notify (s.tasks.enqueue t).2)
  | redeliver taskID =>
    some ({ s with tasks := (s.tasks.redeliver taskID).1 },
      notify ((s.tasks.redeliver taskID).2 = .redelivered))
  | sweep =>
    if e.walk.isPerm s.tasks.inflight then
      some ({ s with tasks := (s.tasks.sweep e.walk e.now).1 }, notify (requeued e.walk e.now ≠ []))
    else none
  | send =>
    -- a full channel keeps the token it has
    some (if s.wake then s else { s with wake := true, sent := s.sent + 1 }, .returned {} false)
  | poll =>
    if s.polling = none then some ({ s with polling := some i }, .look false)
    else some (s, .returned {} false)
  | look woken =>
    if e.mayAct then
      some ({ s with tasks := (s.tasks.take maxTasksPerPoll e.now).1 },
        if (s.tasks.take maxTasksPerPoll e.now).2 = [] ∧ woken = false then .wait
        else .leave { tasks := (s.tasks.take maxTasksPerPoll e.now).2 } woken)
    else some (s, .leave { backoff := second } woken)
  | wait =>
    match e.event with
    | .cancelled => some (s, .leave {} false)
    | .timer shed => some (s, .leave { backoff := shed } false)
    | .wake => if s.wake then some ({ s with wake := false }, .look true) else none
  | leave batch woken => some ({ s with polling := none }, .returned batch woken)
  | returned _ _ => none

structure PollSystem where
  queue : HostQueue := {}
  callers : List QueueCaller := []

inductive PollMove
  | call (c : QueueCaller)
  | step (i : Nat) (e : PollTick)

def QueueCaller.arrives : QueueCaller → Bool
  | enqueue _ | redeliver _ | sweep | poll => true
  | _ => false

namespace PollSystem

def move (w : PollSystem) : PollMove → PollSystem
  | .call c => if c.arrives then { w with callers := w.callers ++ [c] } else w
  | .step i e =>
    match w.callers[i]?.bind (·.step w.queue i e) with
    | some (queue, c) => ⟨queue, w.callers.set i c⟩
    | none => w

def run (w : PollSystem) (moves : List PollMove) : PollSystem := moves.foldl move w

end PollSystem

def QueueCaller.polls : QueueCaller → Bool
  | look _ | wait | leave _ _ => true
  | _ => false

def QueueCaller.woken : QueueCaller → Bool
  | look woken | leave _ woken | returned _ woken => woken
  | _ => false

def QueueCaller.wokenForNothing : QueueCaller → Bool
  | returned batch woken => woken && batch.tasks.isEmpty
  | _ => false

structure Handled (lost : LeasedTask → Prop) (q q' : TaskQueue) : Prop where
  retired : q'.retired = q.retired
  waiting : ∃ new, q'.handed = q.handed ++ new ∧ ∀ lt ∈ q.pending,
    lt ∈ q'.pending ∨ (∃ now, (lt.deliver now).task ∈ new) ∨ lost lt

structure StepSpec (s s' : HostQueue) (i : Nat) (e : PollTick) (c c' : QueueCaller) : Prop where
  flag : (c.polls = true ↔ s.polling = some i) → (c'.polls = true ↔ s'.polling = some i) ∧
    ∀ j, j ≠ i → (s'.polling = some j ↔ s.polling = some j)
  idle : c' = .wait → s.tasks.retired = false → s'.tasks.pending = []
  outside : c.polls = false → c' = .send ∨ s'.wake = true ∨
    c ≠ .send ∧ s'.wake = s.wake ∧ (s'.tasks.pending ≠ [] → s.tasks.pending ≠ [])
  tokens : c'.woken.toNat + s'.wake.toNat + s.sent = s'.sent + (c.woken.toNat + s.wake.toNat)
  handled : Handled (fun lt => c = .sweep ∧ lt.unclaimed e.now = true) s.tasks s'.tasks

section
variable {s s' : HostQueue} {i : Nat} {e : PollTick} {c c' : QueueCaller}

theorem Handled.more {lost : LeasedTask → Prop} {q q' : TaskQueue} (hr : q'.retired = q.retired)
    (hh : q'.handed = q.handed) (hp : q.pending ⊆ q'.pending) : Handled lost q q' :=
  ⟨hr, [], by rw [hh, append_nil], fun _ hlt => .inl (hp hlt)⟩

theorem Handled.refl {lost : LeasedTask → Prop} {q : TaskQueue} : Handled lost q q :=
  .more rfl rfl fun _ => id

theorem take_handled {lost : LeasedTask → Prop} {q : TaskQueue} {n : Nat} {now : Time} :
    Handled lost q (q.take n now).1 := by
  unfold TaskQueue.take
  split
  · exact .refl
  refine ⟨rfl, _, rfl, fun lt hlt => ?_⟩
  rw [← take_append_drop n q.pending] at hlt
  rcases mem_append.mp hlt with hlt | hlt
  · exact .inr (.inl ⟨now, mem_map_of_mem (mem_map_of_mem hlt)⟩)
  · exact .inl hlt

theorem take_idle {q : TaskQueue} {now : Time} (hq : q.retired = false)
    (h : (q.take maxTasksPerPoll now).2 = []) : (q.take maxTasksPerPoll now).1.pending = [] := by
  have hempty : q.pending = [] := by simpa [TaskQueue.take, hq, maxTasksPerPoll] using h
  simp [TaskQueue.take, hq, hempty]

theorem sweep_handled {q : TaskQueue} {walk : List LeasedTask} {now : Time} :
    Handled (·.unclaimed now = true) q (q.sweep walk now).1 := by
  refine ⟨rfl, [], (append_nil _).symm, fun lt hlt => ?_⟩
  cases hlost : lt.unclaimed now with
  | true => exact .inr (.inr rfl)
  | false =>
    refine .inl (mem_filter.mpr ⟨mem_append_left _ hlt, ?_⟩)
    rw [hlost, Bool.not_false]

theorem StepSpec.same (hin : c'.polls = c.polls) (hwoken : c'.woken = c.woken) (hwait : c' ≠ .wait)
    (hsend : c = .send → s.wake = true) : StepSpec s s i e c c' := by
  refine ⟨fun hflag => ⟨hin ▸ hflag, fun _ _ => Iff.rfl⟩, fun hc => absurd hc hwait, fun _ => ?_,
    by rw [hwoken, Nat.add_comm], .refl⟩
  by_cases hc : c = .send
  · exact .inr (.inl (hsend hc))
  · exact .inr (.inr ⟨hc, rfl, id⟩)

theorem some_eq_iff {j : Nat} (hj : j ≠ i) : some i = some j ↔ none = some j := by
  simp [hj.symm]

/-- What each step of a caller does, case by case. -/
theorem step_spec (h : c.step s i e = some (s', c')) : StepSpec s s' i e c c' := by
  have hflag {a : Option Nat} {x : Bool} (hin : x = true ↔ a = some i) :
      (x = true ↔ a = some i) ∧ ∀ j, j ≠ i → (a = some j ↔ a = some j) :=
    ⟨hin, fun _ _ => Iff.rfl⟩
  have hinside {P : Prop} (hout : true = false) : P := absurd hout.symm Bool.false_ne_true
  cases c with
  | enqueue t =>
    cases h
    unfold TaskQueue.enqueue
    split
    · exact .same rfl rfl nofun nofun
    · exact ⟨hflag, nofun, fun _ => .inl rfl, Nat.add_comm _ _,
        .more rfl rfl fun _ => mem_append_left _⟩
  | redeliver taskID =>
    cases h
    unfold TaskQueue.redeliver
    split
    · exact .same rfl rfl nofun nofun
    split
    · exact .same rfl rfl nofun nofun
    · exact ⟨hflag, nofun, fun _ => .inl rfl, Nat.add_comm _ _,
        .more rfl rfl fun _ => mem_cons_of_mem _⟩
  | sweep =>
    rw [QueueCaller.step] at h
    split at h <;> cases h
    have hhandled : Handled (fun lt => QueueCaller.sweep = .sweep ∧ lt.unclaimed e.now = true)
        s.tasks (s.tasks.sweep e.walk e.now).1 := by
      simpa using sweep_handled
    by_cases hnone : requeued e.walk e.now = []
    · rw [decide_eq_false (not_not.mpr hnone)]
      refine ⟨hflag, nofun, fun _ => .inr (.inr ⟨nofun, rfl, fun hp hempty => hp ?_⟩),
        Nat.add_comm _ _, hhandled⟩
      unfold requeued at hnone
      simp [TaskQueue.sweep, hempty, hnone]
    · rw [decide_eq_true hnone]
      exact ⟨hflag, nofun, fun _ => .inl rfl, Nat.add_comm _ _, hhandled⟩
  | send =>
    cases h
    split <;> rename_i hw
    · exact .same rfl rfl nofun fun _ => hw
    · refine ⟨hflag, nofun, fun _ => .inr (.inl rfl), ?_, .refl⟩
      simp only [Bool.eq_false_iff.mpr hw, QueueCaller.woken, Bool.toNat_true, Bool.toNat_false]
      omega
  | poll =>
    rw [QueueCaller.step] at h
    split at h <;> rename_i hfree <;> cases h
    · refine ⟨fun _ => ⟨⟨fun _ => rfl, fun _ => rfl⟩, fun j hj => ?_⟩, nofun,
        fun _ => .inr (.inr ⟨nofun, rfl, id⟩), Nat.add_comm _ _, .refl⟩
      rw [hfree]
      exact some_eq_iff hj
    · exact .same rfl rfl nofun nofun
  | look woken =>
    rw [QueueCaller.step] at h
    split at h
    · cases h
      split <;> rename_i hout
      · -- a poll goes on to wait only from a first look that found nothing
        obtain ⟨hnone, rfl⟩ := hout
        exact ⟨hflag, fun _ hopen => take_idle hopen hnone, hinside, Nat.add_comm _ _, take_handled⟩
      · exact ⟨hflag, nofun, hinside, Nat.add_comm _ _, take_handled⟩
    · cases h
      exact .same rfl rfl nofun nofun
  | wait =>
    rw [QueueCaller.step] at h
    split at h
    · cases h
      exact .same rfl rfl nofun nofun
    · cases h
      exact .same rfl rfl nofun nofun
    split at h <;> rename_i hw <;> cases h
    refine ⟨hflag, nofun, hinside, ?_, .refl⟩
    simp only [hw, QueueCaller.woken, Bool.toNat_true, Bool.toNat_false]
    omega
  | leave batch woken =>
    cases h
    refine ⟨fun hin => ⟨iff_of_false Bool.false_ne_true (Option.some_ne_none i).symm, fun j hj => ?_⟩,
      nofun, hinside, Nat.add_comm _ _, .refl⟩
    have hmine : s.polling = some i := hin.mp rfl
    rw [hmine]
    exact (some_eq_iff hj).symm
  | returned batch woken => cases h

end

structure Tended (token : Bool) (w : PollSystem) : Prop where
  -- while the poll inside has found nothing, a task that waits has a token, or a caller that is
  -- about to send one
  served : w.queue.tasks.retired = false
  flag : ∀ i : Nat, (∃ c, w.callers[i]? = some c ∧ c.polls = true) ↔ w.queue.polling = some i
  awake : ∀ i : Nat, w.callers[i]? = some .wait → w.queue.tasks.pending ≠ [] →
    w.queue.wake = true ∨ .send ∈ w.callers
  counted : w.callers.countP (·.woken) + w.queue.wake.toNat = w.queue.sent + token.toNat

/-- Where one caller has moved, the count of those with a property follows that one. -/
theorem countP_set_add {l : List QueueCaller} {i : Nat} {c : QueueCaller} (p : QueueCaller → Bool)
    (hc : l[i]? = some c) (c' : QueueCaller) :
    (l.set i c').countP p + (p c).toNat = l.countP p + (p c').toNat := by
  obtain ⟨hlt, rfl⟩ := List.getElem?_eq_some_iff.mp hc
  have hpos : p l[i] = true → 0 < l.countP p := fun h =>
    countP_pos_iff.mpr ⟨_, getElem_mem hlt, h⟩
  rw [countP_set hlt]
  cases hp : p l[i] <;> cases hp' : p c' <;> simp_all

section
variable {token : Bool} {w : PollSystem}

theorem move_cases (w : PollSystem) (m : PollMove) : w.move m = w ∨
    (∃ c, c.arrives = true ∧ w.move m = { w with callers := w.callers ++ [c] }) ∨
    ∃ i e c s' c', m = .step i e ∧ w.callers[i]? = some c ∧ StepSpec w.queue s' i e c c' ∧
      w.move m = ⟨s', w.callers.set i c'⟩ := by
  cases m with
  | call c =>
    rw [PollSystem.move]
    split <;> rename_i hc
    · exact .inr (.inl ⟨c, hc, rfl⟩)
    · exact .inl rfl
  | step i e =>
    rw [PollSystem.move]
    split <;> rename_i hstep
    · obtain ⟨c, hc, hstep⟩ := Option.bind_eq_some_iff.mp hstep
      exact .inr (.inr ⟨i, e, c, _, _, rfl, hc, step_spec hstep, rfl⟩)
    · exact .inl rfl

theorem Tended.call (h : Tended token w) {c : QueueCaller} (hc : c.arrives = true) :
    Tended token { w with callers := w.callers ++ [c] } := by
  -- a call that arrives is in none of the places the invariant speaks of
  have hnew (c' : QueueCaller) (hc' : c'.polls = true) (i : Nat) :
      (w.callers ++ [c])[i]? = some c' ↔ w.callers[i]? = some c' := by
    rw [getElem?_append]
    split
    · exact Iff.rfl
    · rename_i hge
      rw [getElem?_eq_none (not_lt.mp hge)]
      refine ⟨fun hget => ?_, nofun⟩
      obtain rfl := mem_singleton.mp (mem_of_getElem? hget)
      cases c' <;> cases hc <;> cases hc'
  have hasleep : ¬c.woken = true := by cases c <;> cases hc <;> exact Bool.false_ne_true
  refine ⟨h.served, fun i => ?_, fun i hi hp => ?_, ?_⟩
  · rw [← h.flag i]
    exact exists_congr fun c' => and_congr_left fun hc' => hnew c' hc' i
  · exact (h.awake i ((hnew .wait rfl i).mp hi) hp).imp_right (mem_append_left _)
  · rw [countP_append, countP_singleton, if_neg hasleep]
    exact h.counted

/-- A step leaves no waiting task without a token or a sender. -/
theorem Tended.step (h : Tended token w) {i : Nat} {e : PollTick} {s' : HostQueue}
    {c c' : QueueCaller} (hc : w.callers[i]? = some c) (hs : StepSpec w.queue s' i e c c') :
    Tended token ⟨s', w.callers.set i c'⟩ := by
  have hlt : i < w.callers.length := (List.getElem?_eq_some_iff.mp hc).1
  have hmine : c.polls = true ↔ w.queue.polling = some i := by
    rw [← h.flag i, hc]
    simp
  obtain ⟨hself, hothers⟩ := hs.flag hmine
  refine ⟨hs.handled.retired.trans h.served, fun j => ?_, fun j hj hp => ?_, ?_⟩
  · by_cases hji : j = i
    · subst hji
      rw [← hself, getElem?_set_self hlt]
      simp
    · rw [getElem?_set_ne (Ne.symm hji), h.flag j, hothers j hji]
  · by_cases hji : j = i
    · subst hji
      rw [getElem?_set_self hlt] at hj
      exact absurd (hs.idle (Option.some.inj hj) h.served) hp
    rw [getElem?_set_ne (Ne.symm hji)] at hj
    -- another poll waits inside, so the caller is none
    have hother : w.queue.polling = some j := (h.flag j).mp ⟨_, hj, rfl⟩
    have hout : c.polls = false := by
      rw [Bool.eq_false_iff, ne_eq, hmine, hother]
      exact fun he => hji (Option.some.inj he)
    rcases hs.outside hout with rfl | hwake | ⟨hne, hwake, hpending⟩
    · exact .inr (mem_set hlt _)
    · exact .inl hwake
    · -- the task waited before the step, and whoever was to send a token still is
      refine (h.awake j hj (hpending hp)).imp hwake.trans fun hsend => ?_
      obtain ⟨k, hk⟩ := mem_iff_getElem?.mp hsend
      refine mem_of_getElem? (i := k) ?_
      rw [getElem?_set_ne, hk]
      rintro rfl
      exact hne (Option.some.inj (hc.symm.trans hk))
  · have hcount := h.counted
    have htokens := hs.tokens
    have hset := countP_set_add (·.woken) hc c'
    dsimp only
    omega

theorem Tended.run (h : Tended token w) (moves : List PollMove) : Tended token (w.run moves) := by
  induction moves generalizing w with
  | nil => exact h
  | cons m rest ih =>
    refine ih ?_
    rcases move_cases w m with hsame | ⟨c, hc, hcall⟩ | ⟨i, e, c, s', c', -, hc, hs, hstep⟩
    · rw [hsame]
      exact h
    · rw [hcall]
      exact h.call hc
    · rw [hstep]
      exact h.step hc hs

def SweptIn (w : PollSystem) (moves : List PollMove) (lt : LeasedTask) : Prop :=
  ∃ before i e after, moves = before ++ .step i e :: after ∧
    (w.run before).callers[i]? = some .sweep ∧ lt.unclaimed e.now = true

theorem run_handled (moves : List PollMove) :
    Handled (SweptIn w moves) w.queue.tasks (w.run moves).queue.tasks := by
  induction moves generalizing w with
  | nil => exact .refl
  | cons m rest ih =>
    have hfirst : Handled (SweptIn w (m :: rest)) w.queue.tasks (w.move m).queue.tasks := by
      rcases move_cases w m with hsame | ⟨c, -, hcall⟩ | ⟨i, e, c, s', c', rfl, hc, hs, hstep⟩
      · rw [hsame]
        exact .refl
      · rw [hcall]
        exact .refl
      obtain ⟨hretired, new, hnew, hwaiting⟩ := hs.handled
      rw [hstep]
      refine ⟨hretired, new, hnew, fun lt hlt => (hwaiting lt hlt).imp_right (Or.imp_right ?_)⟩
      rintro ⟨rfl, hlost⟩
      exact ⟨[], i, e, rest, rfl, hc, hlost⟩
    -- what the first move leaves waiting is followed through the rest of the run
    obtain ⟨hretired, new, hnew, hwaiting⟩ := hfirst
    obtain ⟨hstays, later, hlater, hthen⟩ := ih (w := w.move m)
    refine ⟨hstays.trans hretired, new ++ later, ?_, fun lt hlt => ?_⟩
    · rw [← append_assoc, ← hnew]
      exact hlater
    rcases hwaiting lt hlt with hstill | ⟨now, hnow⟩ | hswept
    · rcases hthen lt hstill with hstill | ⟨now, hnow⟩ | ⟨before, i, e, after, rfl, hsweep⟩
      · exact .inl hstill
      · exact .inr (.inl ⟨now, mem_append_right _ hnow⟩)
      · exact .inr (.inr ⟨m :: before, i, e, after, rfl, hsweep⟩)
    · exact .inr (.inl ⟨now, mem_append_left _ hnow⟩)
    · exact .inr (.inr hswept)

/-- A batch takes the tasks at the front, and leaves one waiting only if it is full. -/
theorem take_hands {q : TaskQueue} (hq : q.retired = false) (n : Nat) (now : Time) :
    ∃ new, (q.take n now).1.handed = q.handed ++ new ∧ ∀ lt ∈ q.pending,
      (lt.deliver now).task ∈ new ∨ ∃ ahead rest, q.pending = ahead ++ lt :: rest ∧
        n ≤ ahead.length := by
  rw [TaskQueue.take, hq, if_neg Bool.false_ne_true]
  refine ⟨_, rfl, fun lt hlt => ?_⟩
  rw [← take_append_drop n q.pending] at hlt
  rcases mem_append.mp hlt with hlt | hlt
  · exact .inl (mem_map_of_mem (mem_map_of_mem hlt))
  obtain ⟨ahead, rest, hsplit⟩ := append_of_mem hlt
  have hlong := congrArg length hsplit
  simp only [length_drop, length_append, length_cons] at hlong
  refine .inr ⟨q.pending.take n ++ ahead, rest, ?_, ?_⟩
  · rw [append_assoc, ← hsplit, take_append_drop]
  · rw [length_append, length_take]
    omega

end

/-- Over every interleaving, no two polls of a host are past the flag together. -/
theorem one_poll_inside (token : Bool) (moves : List PollMove) :
    (PollSystem.run ⟨{ wake := token }, []⟩ moves).callers.Pairwise fun c d =>
      ¬(c.polls = true ∧ d.polls = true) := by
  have hstart : Tended token ⟨{ wake := token }, []⟩ :=
    ⟨rfl, fun i => ⟨nofun, nofun⟩, nofun, rfl⟩
  have h := hstart.run moves
  rw [pairwise_iff_getElem]
  rintro i j hi hj hij ⟨hc, hd⟩
  have hheld := (h.flag i).mp ⟨_, getElem?_eq_getElem hi, hc⟩
  rw [(h.flag j).mp ⟨_, getElem?_eq_getElem hj, hd⟩] at hheld
  exact hij.ne' (Option.some.inj hheld)

/-- Over every interleaving on a queue in service: a poll that waits beside a task has a token, or a
caller about to send one, and `polling` is held only by a poll under way. The next look of a poll
hands a waiting task out, unless a sweep has dropped it or a full batch is ahead of it. Each token
wakes one poll, so no more polls were woken for nothing than there were tokens. -/
theorem waiting_poll_served (q : TaskQueue) (hq : q.retired = false) (token : Bool)
    (moves : List PollMove) :
    let w := PollSystem.run ⟨{ tasks := q, wake := token }, []⟩ moves
    (∀ i : Nat, w.callers[i]? = some .wait → w.queue.tasks.pending ≠ [] →
      w.queue.wake = true ∨ .send ∈ w.callers) ∧
    (∀ i, w.queue.polling = some i → ∃ c, w.callers[i]? = some c ∧ c.polls = true) ∧
    (∀ lt ∈ w.queue.tasks.pending, ∀ later j woken e,
      (w.run later).callers[j]? = some (.look woken) → e.mayAct = true →
      ∃ new, ((w.run later).move (.step j e)).queue.tasks.handed = w.queue.tasks.handed ++ new ∧
        ((∃ now, (lt.deliver now).task ∈ new) ∨ SweptIn w later lt ∨
          ∃ ahead rest, (w.run later).queue.tasks.pending = ahead ++ lt :: rest ∧
            maxTasksPerPoll ≤ ahead.length)) ∧
    w.callers.countP (·.woken) + w.queue.wake.toNat = w.queue.sent + token.toNat ∧
    w.callers.countP (·.wokenForNothing) + w.queue.wake.toNat ≤ w.queue.sent + token.toNat := by
  intro w
  have hstart : Tended token ⟨{ tasks := q, wake := token }, []⟩ :=
    ⟨hq, fun i => ⟨nofun, nofun⟩, nofun, rfl⟩
  have h : Tended token w := hstart.run moves
  have hnothing : w.callers.countP (·.wokenForNothing) ≤ w.callers.countP (·.woken) := by
    apply countP_mono_left
    intro c _ hc
    cases c <;> simp_all [QueueCaller.wokenForNothing, QueueCaller.woken]
  refine ⟨h.awake, fun i => (h.flag i).mpr, fun lt hlt later j woken e hj he => ?_, h.counted,
    (Nat.add_le_add_right hnothing _).trans_eq h.counted⟩
  obtain ⟨-, new, hnew, hwaiting⟩ := run_handled (w := w) later
  obtain ⟨batch, hbatch, hlook⟩ := take_hands (h.run later).served maxTasksPerPoll e.now
  have hmove : ((w.run later).move (.step j e)).queue.tasks =
      ((w.run later).queue.tasks.take maxTasksPerPoll e.now).1 := by
    rw [PollSystem.move, hj, Option.bind_some, QueueCaller.step, if_pos he]
  refine ⟨new ++ batch, by rw [hmove, hbatch, hnew, append_assoc], ?_⟩
  rcases hwaiting lt hlt with hstill | ⟨now, hnow⟩ | hswept
  · rcases hlook lt hstill with hnow | hahead
    · exact .inl ⟨e.now, mem_append_right _ hnow⟩
    · exact .inr (.inr hahead)
  · exact .inl ⟨now, mem_append_left _ hnow⟩
  · exact .inr (.inl hswept)

def stopTask (n : Nat) : Task :=
  { id := String.singleton (Char.ofNat (65 + n)), kind := .stopRunner
    runnerID := String.singleton (Char.ofNat (65 + n)) }

def crowd : List PollMove :=
  [.call .poll, .step 0 {}, .step 0 {}] ++
    (range 41).flatMap (fun n => [.call (.enqueue (stopTask n)), .step (n + 1) {}]) ++
    [.step 1 {}, .step 0 {}, .step 0 {}, .step 0 {}, .call .poll, .step 42 {}, .step 42 {},
      .step 42 {}]

theorem waiting_poll_served_crowd :
    let w := PollSystem.run {} (crowd.take 5)
    w.callers[0]? = some .wait ∧ w.queue.tasks.pending ≠ [] ∧
      (w.queue.wake = true ∨ .send ∈ w.callers) := by
  have hwait : (PollSystem.run {} (crowd.take 5)).callers[0]? = some .wait := by decide +kernel
  have hpending : (PollSystem.run {} (crowd.take 5)).queue.tasks.pending ≠ [] := by decide +kernel
  exact ⟨hwait, hpending, (waiting_poll_served {} rfl false (crowd.take 5)).1 0 hwait hpending⟩

/-- Queued while a poll waits, the last task reaches neither that poll nor the next. -/
theorem crowded_out : (PollSystem.run {} (crowd.take 85)).callers[0]? = some .wait ∧
    let w := PollSystem.run {} crowd
    w.callers[0]? = some (.returned { tasks := w.queue.tasks.handed.take 20 } true) ∧
      w.callers[42]? = some (.returned { tasks := w.queue.tasks.handed.drop 20 } false) ∧
      w.queue.tasks.handed.length = 40 ∧ w.queue.tasks.pending.map (·.task) = [stopTask 40] := by
  decide +kernel

end Zoomies.Controller
