import Zoomies.AtomicCalls
import Zoomies.GoFormat
import Mathlib.Data.List.Nodup
import Mathlib.Data.List.Perm.Subperm

/-! One host's task queue, at the granularity of its mutex. -/
namespace Zoomies.Controller
open Zoomies.Go Zoomies.Prog List

inductive TaskKind
  | createRunner
  | stopRunner
  | removeRunner
  | streamLogs
  | cancelLogs
  | prewarmImage
  | fillToolCache
  | checkHost
  | updateAgent
  | mergeConflict
  deriving DecidableEq

def TaskKind.text : TaskKind → String
  | createRunner => "create_runner"
  | stopRunner => "stop_runner"
  | removeRunner => "remove_runner"
  | streamLogs => "stream_logs"
  | cancelLogs => "cancel_logs"
  | prewarmImage => "prewarm_image"
  | fillToolCache => "fill_tool_cache"
  | checkHost => "check_host"
  | updateAgent => "update_agent"
  | mergeConflict => "merge_conflict"

structure Task where
  id : String
  kind : TaskKind
  runnerID : String := ""
  poolID : String := ""
  image : String := ""
  updateID : String := ""
  mergeID : String := ""
  streamID : String := ""
  issuedAt : Time := 0
  attempt : Nat := 0
  deriving DecidableEq

structure LeasedTask where
  task : Task
  key : String
  attempts : Nat := 0
  expires : Time := 0
  deriving DecidableEq

def maxTaskAttempts : Nat := 3

def maxTasksPerPoll : Nat := 20

def hostCheckPendingTTL : Duration := 20 * second

def taskKey (t : Task) : String :=
  match t.kind with
  | .prewarmImage => t.kind.text ++ ":" ++ t.poolID ++ ":" ++ t.image
  | .fillToolCache => t.kind.text ++ ":" ++ t.poolID
  | .updateAgent => t.kind.text ++ ":" ++ t.updateID
  | .mergeConflict => t.kind.text ++ ":" ++ t.mergeID
  | _ =>
    if t.streamID ≠ "" then t.kind.text ++ "|stream:" ++ t.streamID
    else t.kind.text ++ "|" ++ t.runnerID

def requeueAfter : TaskKind → Duration
  | .createRunner => 20 * minute
  | .stopRunner => 10 * minute
  | .removeRunner => 5 * minute
  | .prewarmImage => 20 * minute
  | .fillToolCache => 50 * minute
  | .checkHost => 90 * second
  | .updateAgent => 5 * minute
  | .mergeConflict => 10 * minute
  | .streamLogs | .cancelLogs => 0

def maxAttempts (kind : TaskKind) : Nat := if kind = .checkHost then 1 else maxTaskAttempts

structure TaskQueue where
  -- The queue. `accepted` and `handed` only record, for every task ever enqueued, its ID and its
  -- deliveries.
  retired : Bool := false
  pending : List LeasedTask := []
  /-- A map keyed by the task's ID. -/
  inflight : List LeasedTask := []
  accepted : List String := []
  handed : List Task := []

inductive Redelivery
  | redelivered
  | notInFlight
  | outOfAttempts
  deriving DecidableEq

variable (now : Time) (lt : LeasedTask)

def LeasedTask.deliver : LeasedTask :=
  { lt with
    attempts := lt.attempts + 1
    task := { lt.task with issuedAt := now, attempt := lt.attempts + 1 }
    expires := if 0 < requeueAfter lt.task.kind then now + requeueAfter lt.task.kind else 0 }

def LeasedTask.expired : Bool :=
  lt.expires ≠ 0 ∧ lt.expires ≤ now

def LeasedTask.spent : Bool := maxAttempts lt.task.kind ≤ lt.attempts

def LeasedTask.unclaimed : Bool :=
  lt.task.kind = .checkHost ∧ hostCheckPendingTTL < sub now lt.task.issuedAt

namespace TaskQueue
variable (q : TaskQueue)

def enqueue (t : Task) : TaskQueue × Bool :=
  if q.retired || (q.pending ++ q.inflight).any (·.key == taskKey t) then (q, false)
  else
    ({ q with pending := q.pending ++ [{ task := t, key := taskKey t }]
              accepted := t.id :: q.accepted }, true)

def put (inflight : List LeasedTask) (lt : LeasedTask) : List LeasedTask :=
  inflight.filter (·.task.id ≠ lt.task.id) ++ [lt]

def take (n : Nat) (now : Time) : TaskQueue × List Task :=
  if q.retired then (q, [])
  else
    let out := (q.pending.take n).map (·.deliver now)
    ({ q with pending := q.pending.drop n
              inflight := out.foldl put q.inflight
              handed := q.handed ++ out.map (·.task) }, out.map (·.task))

def peek (taskID : String) : Option Task :=
  (q.inflight.find? (·.task.id == taskID)).map (·.task)

def complete (taskID : String) : TaskQueue :=
  { q with inflight := q.inflight.filter (·.task.id ≠ taskID) }

def redeliver (taskID : String) : TaskQueue × Redelivery :=
  match q.inflight.find? (·.task.id == taskID) with
  | none => (q, .notInFlight)
  | some lt =>
    if lt.spent then (q, .outOfAttempts)
    else
      ({ q with inflight := q.inflight.filter (·.task.id ≠ taskID)
                pending := { lt with expires := 0 } :: q.pending }, .redelivered)

def withdraw (picks : Task → Bool) (inFlight : Bool) : TaskQueue :=
  { q with pending := q.pending.filter fun lt => !picks lt.task
           inflight := q.inflight.filter fun lt => !(inFlight && picks lt.task) }

def sweep (walk : List LeasedTask) (now : Time) : TaskQueue × List Task :=
  let expired := walk.filter (·.expired now)
  let pending := q.pending ++ expired.filter fun lt => !lt.spent
  ({ q with inflight := q.inflight.filter fun lt => !lt.expired now
            pending := pending.filter fun lt => !lt.unclaimed now },
    (expired.filter (·.spent) ++ pending.filter (·.unclaimed now)).map (·.task))

def retire : TaskQueue := { q with retired := true, pending := [], inflight := [] }

def forget : TaskQueue := { q with retired := false, pending := [], inflight := [] }

end TaskQueue

inductive QueueCall
  -- the locked operations; `applyResult` stands for the store writes of `ReportResult`, and
  -- `complete` carries what they answered, if they were made
  | enqueue (t : Task)
  | take (n : Nat)
  | peek (taskID : String)
  | redeliver (taskID : String) (delivery : Nat)
  | complete (taskID : String) (delivery : Nat) (applied : Option (Except String Unit))
  | applyResult
  | withdraw (picks : Task → Bool) (inFlight : Bool)
  | sweep
  | retire
  | forget

def QueueCall.Answer : QueueCall → Type
  | enqueue _ => Bool
  | take _ => List Task
  | peek _ => Option Task
  | redeliver _ _ => Redelivery
  | applyResult => Except String Unit
  | sweep => List Task
  | _ => Unit

structure QueueTick where
  now : Time := 0
  walk : List LeasedTask := []
  applied : Except String Unit := .ok ()

def TaskQueue.call (q : TaskQueue) (e : QueueTick) (_ : Nat) :
    (o : QueueCall) → Option (TaskQueue × o.Answer)
  | .enqueue t => some (q.enqueue t)
  | .take n => some (q.take n e.now)
  | .peek taskID => some (q, q.peek taskID)
  | .redeliver taskID _ => some (q.redeliver taskID)
  | .complete taskID _ _ => some (q.complete taskID, ())
  | .applyResult => some (q, e.applied)
  | .withdraw picks inFlight => some (q.withdraw picks inFlight, ())
  | .sweep => if e.walk.isPerm q.inflight then some (q.sweep e.walk e.now) else none
  | .retire => some (q.retire, ())
  | .forget => some (q.forget, ())

structure TaskResult where
  taskID : String
  ok : Bool := true
  notStarted : Bool := false

abbrev QueueProg := Prog QueueCall QueueCall.Answer

def reportResult (res : TaskResult) (delivery : Nat) : QueueProg (Except String Unit) := do
  let back : Redelivery ← if res.notStarted && !res.ok then
      ask (QueueCall.redeliver res.taskID delivery)
    else pure .outOfAttempts
  let applied : Option (Except String Unit) ← match back with
    | .outOfAttempts => do
      let _ ← ask (QueueCall.peek res.taskID)
      let result ← ask QueueCall.applyResult
      pure (some result)
    | _ => pure none
  match applied with
  | some (.error err) => pure (.error err)
  | _ => do
    ask (QueueCall.complete res.taskID delivery applied)
    pure (.ok ())

inductive QueueRequest
  | enqueue (t : Task)
  | poll
  | report (res : TaskResult) (delivery : Nat)
  | withdraw (picks : Task → Bool) (inFlight : Bool)
  | sweep
  | retire
  | forget

def QueueRequest.prog : QueueRequest → QueueProg (Except String Unit)
  | enqueue t => do
    let _ ← ask (QueueCall.enqueue t)
    pure (.ok ())
  | poll => do
    let _ ← ask (QueueCall.take maxTasksPerPoll)
    pure (.ok ())
  | report res delivery => reportResult res delivery
  | withdraw picks inFlight => do
    ask (QueueCall.withdraw picks inFlight)
    pure (.ok ())
  | sweep => do
    let _ ← ask QueueCall.sweep
    pure (.ok ())
  | retire => do
    ask QueueCall.retire
    pure (.ok ())
  | forget => do
    ask QueueCall.forget
    pure (.ok ())

abbrev QueueWorld := World TaskQueue QueueRequest QueueCall QueueCall.Answer (Except String Unit)

abbrev QueueMove := Move QueueRequest QueueTick

def QueueWorld.run (w : QueueWorld) (moves : List QueueMove) : QueueWorld :=
  World.run TaskQueue.call QueueRequest.prog w moves

def LeasedTask.core (lt : LeasedTask) : Task × String × Nat := (lt.task, lt.key, lt.attempts)

def TaskQueue.outstanding (q : TaskQueue) : List LeasedTask := q.pending ++ q.inflight

theorem maxAttempts_pos {kind : TaskKind} : 0 < maxAttempts kind := by
  rw [maxAttempts]
  split <;> decide

structure Books (l : List LeasedTask) (accepted : List String) (handed : List Task) : Prop where
  ids : (l.map (·.task.id)).Nodup
  keys : (l.map (·.key)).Nodup
  within : ∀ lt ∈ l, lt.attempts ≤ maxAttempts lt.task.kind
  known : ∀ lt ∈ l, lt.task.id ∈ accepted
  counted : ∀ lt ∈ l, handed.countP (·.id == lt.task.id) = lt.attempts
  kinds : ∀ lt ∈ l, ∀ t ∈ handed, t.id = lt.task.id → t.kind = lt.task.kind
  bounded : ∀ t ∈ handed, t.id ∈ accepted ∧ handed.countP (·.id == t.id) ≤ maxAttempts t.kind

section
variable {l l' : List LeasedTask} {accepted : List String} {handed : List Task}

theorem Books.shrink (h : Books l accepted handed)
    (hsub : (l'.map LeasedTask.core).Subperm (l.map LeasedTask.core)) :
    Books l' accepted handed := by
  have hnodup {α : Type} (f : Task × String × Nat → α) (hn : (l.map (f ∘ LeasedTask.core)).Nodup) :
      (l'.map (f ∘ LeasedTask.core)).Nodup := by
    rw [← map_map] at hn ⊢
    obtain ⟨m, hperm, hm⟩ := hsub
    exact (hperm.map f).nodup_iff.mp ((hm.map f).nodup hn)
  have hold (lt : LeasedTask) (hlt : lt ∈ l') :
      ∃ o ∈ l, o.task = lt.task ∧ o.attempts = lt.attempts := by
    obtain ⟨o, ho, hcore⟩ := mem_map.mp (hsub.subset (mem_map_of_mem hlt))
    obtain ⟨htask, hrest⟩ := Prod.mk.inj hcore
    exact ⟨o, ho, htask, (Prod.mk.inj hrest).2⟩
  refine ⟨hnodup (·.1.id) h.ids, hnodup (·.2.1) h.keys, ?_, ?_, ?_, ?_, h.bounded⟩ <;> intro lt hlt
    <;> obtain ⟨o, ho, htask, hattempts⟩ := hold lt hlt
  · exact htask ▸ hattempts ▸ h.within o ho
  · exact htask ▸ h.known o ho
  · exact htask ▸ hattempts ▸ h.counted o ho
  · exact htask ▸ h.kinds o ho

theorem core_subperm (h : l'.Subperm l) :
    (l'.map LeasedTask.core).Subperm (l.map LeasedTask.core) := by
  obtain ⟨m, hperm, hm⟩ := h
  exact ⟨m.map _, hperm.map _, hm.map _⟩

theorem Books.enqueue (h : Books l accepted handed) (t : Task) (hid : t.id ∉ accepted)
    (hkey : taskKey t ∉ l.map (·.key)) :
    Books ({ task := t, key := taskKey t } :: l) (t.id :: accepted) handed := by
  have hnew : t.id ∉ l.map (·.task.id) := by
    intro hmem
    obtain ⟨o, ho, he⟩ := mem_map.mp hmem
    exact hid (he ▸ h.known o ho)
  have hfresh (u : Task) (hu : u ∈ handed) : u.id ≠ t.id := fun he => hid (he ▸ (h.bounded u hu).1)
  refine ⟨nodup_cons.mpr ⟨hnew, h.ids⟩, nodup_cons.mpr ⟨hkey, h.keys⟩,
    forall_mem_cons.mpr ⟨Nat.zero_le _, h.within⟩,
    forall_mem_cons.mpr ⟨mem_cons_self, fun o ho => mem_cons_of_mem _ (h.known o ho)⟩,
    forall_mem_cons.mpr ⟨?_, h.counted⟩,
    forall_mem_cons.mpr ⟨fun u hu he => absurd he (hfresh u hu), h.kinds⟩,
    fun u hu => ⟨mem_cons_of_mem _ (h.bounded u hu).1, (h.bounded u hu).2⟩⟩
  exact countP_eq_zero.mpr fun u hu he => hfresh u hu (beq_iff_eq.mp he)

theorem Books.deliver (lt : LeasedTask) (h : Books (lt :: l) accepted handed)
    (hmore : lt.attempts < maxAttempts lt.task.kind) (now : Time) :
    Books (lt.deliver now :: l) accepted (handed ++ [(lt.deliver now).task]) := by
  obtain ⟨hid, hids⟩ := nodup_cons.mp h.ids
  have hother (o : LeasedTask) (ho : o ∈ l) : lt.task.id ≠ o.task.id :=
    fun he => hid (mem_map.mpr ⟨o, ho, he.symm⟩)
  have hcount (id : String) : (handed ++ [(lt.deliver now).task]).countP (·.id == id) =
      handed.countP (·.id == id) + if lt.task.id = id then 1 else 0 := by
    rw [countP_append, countP_singleton]
    exact congrArg _ (if_congr beq_iff_eq rfl rfl)
  have hown : (handed ++ [(lt.deliver now).task]).countP (·.id == lt.task.id) = lt.attempts + 1 := by
    rw [hcount, if_pos rfl, h.counted lt mem_cons_self]
  obtain ⟨_, hwithin⟩ := forall_mem_cons.mp h.within
  obtain ⟨hknown, hknowns⟩ := forall_mem_cons.mp h.known
  obtain ⟨_, hcounted⟩ := forall_mem_cons.mp h.counted
  obtain ⟨hkind, hkinds⟩ := forall_mem_cons.mp h.kinds
  refine ⟨h.ids, h.keys, forall_mem_cons.mpr ⟨hmore, hwithin⟩,
    forall_mem_cons.mpr ⟨hknown, hknowns⟩, forall_mem_cons.mpr ⟨hown, fun o ho => ?_⟩,
    forall_mem_cons.mpr ⟨fun u hu he => ?_, fun o ho u hu he => ?_⟩, fun u hu => ?_⟩
  · rw [hcount, if_neg (hother o ho)]
    exact hcounted o ho
  · rcases mem_append.mp hu with hu | hu
    · exact hkind u hu he
    · rw [mem_singleton.mp hu]
  · rcases mem_append.mp hu with hu | hu
    · exact hkinds o ho u hu he
    · rw [mem_singleton.mp hu] at he
      exact absurd he (hother o ho)
  rcases mem_append.mp hu with hu | hu
  · refine ⟨(h.bounded u hu).1, ?_⟩
    by_cases he : u.id = lt.task.id
    · rw [he, hown, hkind u hu he]
      exact hmore
    · rw [hcount, if_neg fun h => he h.symm]
      exact (h.bounded u hu).2
  · rw [mem_singleton.mp hu]
    exact ⟨hknown, hown.trans_le hmore⟩

end

structure Booked (q : TaskQueue) : Prop where
  books : Books q.outstanding q.accepted q.handed
  waiting : ∀ lt ∈ q.pending, lt.attempts < maxAttempts lt.task.kind

section
variable {q : TaskQueue}

theorem Booked.filter (h : Booked q) (keep keep' : LeasedTask → Bool) :
    Booked { q with pending := q.pending.filter keep, inflight := q.inflight.filter keep' } :=
  ⟨h.books.shrink ((filter_sublist.append filter_sublist).map _).subperm,
    fun lt hlt => h.waiting lt (mem_of_mem_filter hlt)⟩

theorem enqueue_booked (h : Booked q) {t : Task} (hid : t.id ∉ q.accepted) :
    Booked (q.enqueue t).1 := by
  unfold TaskQueue.enqueue
  split <;> rename_i hcase
  · exact h
  rw [Bool.or_eq_true, not_or, any_eq_true] at hcase
  have hkey : taskKey t ∉ q.outstanding.map (·.key) := by
    intro hmem
    obtain ⟨o, ho, he⟩ := mem_map.mp hmem
    exact hcase.2 ⟨o, ho, beq_iff_eq.mpr he⟩
  refine ⟨(h.books.enqueue t hid hkey).shrink ?_, fun lt hlt => ?_⟩
  · refine (List.Perm.map _ ?_).subperm
    rw [TaskQueue.outstanding, append_assoc, singleton_append]
    exact perm_middle
  rcases mem_append.mp hlt with hlt | hlt
  · exact h.waiting lt hlt
  · rw [mem_singleton.mp hlt]
    exact maxAttempts_pos

variable {now : Time}

theorem deliver_booked (h : Booked q) {lt : LeasedTask} {rest : List LeasedTask}
    (hp : q.pending = lt :: rest) :
    Booked { q with pending := rest
                    inflight := TaskQueue.put q.inflight (lt.deliver now)
                    handed := q.handed ++ [(lt.deliver now).task] } := by
  have hbooks := h.books
  rw [TaskQueue.outstanding, hp, cons_append] at hbooks
  obtain ⟨hmore, hwaiting⟩ := forall_mem_cons.mp (hp ▸ h.waiting)
  refine ⟨(hbooks.deliver lt hmore now).shrink ?_, hwaiting⟩
  have hput : (rest ++ TaskQueue.put q.inflight (lt.deliver now)).Perm
      (lt.deliver now :: (rest ++ q.inflight.filter (·.task.id ≠ (lt.deliver now).task.id))) := by
    rw [TaskQueue.put, ← append_assoc]
    exact perm_append_singleton _ _
  have hsub := (((List.Sublist.refl rest).append (filter_sublist (l := q.inflight)
    (p := (·.task.id ≠ (lt.deliver now).task.id)))).cons_cons (lt.deliver now)).map LeasedTask.core
  exact (hput.map _).subperm.trans hsub.subperm

theorem take_booked (h : Booked q) {n : Nat} : Booked (q.take n now).1 := by
  induction n generalizing q with
  | zero =>
    unfold TaskQueue.take
    split
    · exact h
    have hbooks := h.books
    rw [← append_nil q.handed] at hbooks
    exact ⟨hbooks, h.waiting⟩
  | succ n ih =>
    cases hr : q.retired with
    | true =>
      rw [TaskQueue.take, hr]
      exact h
    | false =>
      cases hp : q.pending with
      | nil =>
        have hsame : (q.take (n + 1) now).1 = (q.take n now).1 := by
          rw [TaskQueue.take, TaskQueue.take, hp, take_nil, take_nil, drop_nil, drop_nil]
        rw [hsame]
        exact ih h
      | cons lt rest =>
        -- handing out one more is handing out the first, and then as many as before
        have hstep : (q.take (n + 1) now).1 = (TaskQueue.take { q with
            pending := rest
            inflight := TaskQueue.put q.inflight (lt.deliver now)
            handed := q.handed ++ [(lt.deliver now).task] } n now).1 := by
          rw [TaskQueue.take, TaskQueue.take, hr, hp]
          simp
        rw [hstep]
        exact ih (deliver_booked h hp)

theorem redeliver_booked (h : Booked q) {taskID : String} : Booked (q.redeliver taskID).1 := by
  unfold TaskQueue.redeliver
  cases hfind : q.inflight.find? (·.task.id == taskID) with
  | none => exact h
  | some lt =>
    dsimp only
    split <;> rename_i hspent
    · exact h
    refine ⟨h.books.shrink ?_, fun o ho => ?_⟩
    · -- the task stands apart from those of other IDs
      obtain ⟨hid, l, r, hsplit, -⟩ := find?_eq_some_iff_append.mp hfind
      have hself : (lt :: q.inflight.filter (·.task.id ≠ taskID)).Subperm q.inflight := by
        rw [hsplit, filter_append,
          filter_cons_of_neg (by rw [decide_eq_true_eq, not_not]; exact beq_iff_eq.mp hid)]
        exact (List.Sublist.subperm ((filter_sublist.append filter_sublist).cons_cons lt)).trans
          perm_middle.symm.subperm
      have hperm : (lt :: q.pending ++ q.inflight.filter (·.task.id ≠ taskID)).Perm
          (q.pending ++ lt :: q.inflight.filter (·.task.id ≠ taskID)) := perm_middle.symm
      have hall := core_subperm (hperm.subperm.trans ((subperm_append_left q.pending).mpr hself))
      exact hall
    · rcases mem_cons.mp ho with rfl | ho
      · exact Nat.lt_of_not_le fun hle => hspent (decide_eq_true hle)
      · exact h.waiting o ho

theorem sweep_booked (h : Booked q) {walk : List LeasedTask} (hwalk : walk.Perm q.inflight) : Booked (q.sweep walk now).1 := by
  refine ⟨h.books.shrink (core_subperm ?_), fun lt hlt => ?_⟩
  · -- what is moved to wait and what stays in flight are two parts of what was in flight
    have hsplit : (walk.filter (·.expired now) ++ q.inflight.filter fun lt => !lt.expired now).Perm
        q.inflight :=
      ((hwalk.filter _).append_right _).trans (filter_append_perm _ _)
    have hsub : (((q.pending ++ (walk.filter (·.expired now)).filter fun lt => !lt.spent).filter
        fun lt => !lt.unclaimed now) ++ q.inflight.filter fun lt => !lt.expired now).Sublist
        (q.pending ++ (walk.filter (·.expired now) ++ q.inflight.filter fun lt => !lt.expired now)) := by
      rw [← append_assoc]
      exact (filter_sublist.trans ((List.Sublist.refl _).append filter_sublist)).append
        (List.Sublist.refl _)
    exact hsub.subperm.trans (hsplit.append_left _).subperm
  · rcases mem_append.mp (mem_of_mem_filter hlt) with hlt | hlt
    · exact h.waiting lt hlt
    have hspent := (mem_filter.mp hlt).2
    rw [LeasedTask.spent, Bool.not_eq_true', decide_eq_false_iff_not] at hspent
    exact Nat.lt_of_not_le hspent

def QueueCall.newID (q : TaskQueue) : QueueCall → Prop
  | enqueue t => t.id ∉ q.accepted
  | _ => True

theorem call_booked (h : Booked q) {e : QueueTick} {i : Nat} {o : QueueCall} (hid : o.newID q)
    {q' : TaskQueue} {a : o.Answer} (he : q.call e i o = some (q', a)) : Booked q' := by
  have hempty (retired : Bool) : Booked { q with retired := retired, pending := [], inflight := [] } :=
    ⟨h.books.shrink (nil_subperm), fun _ h => absurd h not_mem_nil⟩
  cases o with
  | sweep =>
    rw [TaskQueue.call] at he
    split at he <;> rename_i hperm
    · obtain rfl := congrArg Prod.fst (Option.some.inj he)
      exact sweep_booked h (isPerm_iff.mp hperm)
    · cases he
  | enqueue t =>
    obtain rfl := congrArg Prod.fst (Option.some.inj he)
    exact enqueue_booked h hid
  | take n =>
    obtain rfl := congrArg Prod.fst (Option.some.inj he)
    exact take_booked h
  | redeliver taskID delivery =>
    obtain rfl := congrArg Prod.fst (Option.some.inj he)
    exact redeliver_booked h
  | complete taskID delivery applied =>
    cases he
    have hfilter := h.filter (fun _ => true) (·.task.id ≠ taskID)
    rw [filter_true] at hfilter
    exact hfilter
  | withdraw picks inFlight =>
    cases he
    exact h.filter _ _
  | retire =>
    cases he
    exact hempty true
  | forget =>
    cases he
    exact hempty false
  | _ =>
    obtain rfl := congrArg Prod.fst (Option.some.inj he)
    exact h

end

end Zoomies.Controller
