import Zoomies.ControllerTasks

/-! What may take a task out of a host's queue, over every interleaving of its callers. -/
namespace Zoomies.Controller
open Zoomies.Go List

def TaskQueue.holds (q : TaskQueue) (id : String) : Prop := id ∈ q.outstanding.map (·.task.id)

def TaskQueue.flies (q : TaskQueue) (id : String) : Prop := id ∈ q.inflight.map (·.task.id)

def QueueCall.mayEnd (q : TaskQueue) (e : QueueTick) (lt : LeasedTask) : QueueCall → Prop
  | complete taskID delivery applied =>
    taskID = lt.task.id ∧ lt ∈ q.inflight ∧ delivery = lt.attempts ∧ applied = some (.ok ())
  | withdraw picks _ => picks lt.task = true
  | sweep => lt.task ∈ (q.sweep e.walk e.now).2
  | retire | forget => True
  | _ => False

def QueueCall.mayLand (e : QueueTick) (lt : LeasedTask) : QueueCall → Prop
  | complete taskID delivery _ | redeliver taskID delivery =>
    taskID = lt.task.id ∧ delivery = lt.attempts
  | withdraw picks inFlight => inFlight = true ∧ picks lt.task = true
  | sweep => lt.expires ≠ 0 ∧ lt.expires ≤ e.now
  | retire | forget => True
  | _ => False

def QueueCall.answersOwn (q : TaskQueue) : QueueCall → Prop
  -- an answer finds its task in flight under the delivery it answers, if at all, and one that only
  -- gave the task back does not find it in flight
  | redeliver taskID delivery => ∀ lt ∈ q.inflight, lt.task.id = taskID → lt.attempts = delivery
  | complete taskID delivery applied =>
    ∀ lt ∈ q.inflight, lt.task.id = taskID → lt.attempts = delivery ∧ applied.isSome = true
  | _ => True

instance (q : TaskQueue) (o : QueueCall) : Decidable (o.answersOwn q) :=
  match o with
  | .redeliver _ _ | .complete _ _ _ => inferInstanceAs (Decidable (∀ lt ∈ q.inflight, _ → _))
  | .enqueue _ | .take _ | .peek _ | .applyResult | .withdraw _ _ | .sweep | .retire | .forget =>
    isTrue trivial

instance (q : TaskQueue) (o : QueueCall) : Decidable (o.newID q) :=
  match o with
  | .enqueue t => inferInstanceAs (Decidable (t.id ∉ q.accepted))
  | .take _ | .peek _ | .redeliver _ _ | .complete _ _ _ | .applyResult | .withdraw _ _ | .sweep
  | .retire | .forget => isTrue trivial

def completing : Watch QueueCall QueueCall.Answer where
  State := Unit
  may _
    | .complete _ _ applied => ∀ err, applied ≠ some (.error err)
    | _ => True
  after _ _ _ := ()

theorem reportResult_completes (res : TaskResult) (delivery : Nat) :
    completing.Keeps (fun _ _ => True) () (reportResult res delivery) := by
  have hgiven : ∀ err, (none : Option (Except String Unit)) ≠ some (.error err) := nofun
  unfold reportResult
  dsimp only
  split
  · refine .ask trivial fun back => ?_
    cases back with
    | outOfAttempts =>
      refine .ask trivial fun _ => .ask trivial fun result => ?_
      cases result with
      | error err => exact .pure trivial
      | ok => exact .ask (fun _ => nofun) fun _ => trivial
    | redelivered | notInFlight => exact .ask hgiven fun _ => trivial
  · refine .ask trivial fun _ => .ask trivial fun result => ?_
    cases result with
    | error err => exact .pure trivial
    | ok => exact .ask (fun _ => nofun) fun _ => trivial

/-- No request completes a task whose result the store refused. -/
theorem request_completes (q : QueueRequest) : completing.Keeps (fun _ _ => True) () q.prog := by
  cases q with
  | report res delivery => exact reportResult_completes res delivery
  | enqueue t | poll | withdraw picks inFlight | sweep | retire | forget =>
    exact .ask trivial fun _ => trivial

section
variable {q : TaskQueue} (q' : TaskQueue) {e : QueueTick} {i : Nat} {o : QueueCall} {a : o.Answer}

variable {id : String}

theorem mem_put {inflight : List LeasedTask} {lt : LeasedTask}
    (h : id ∈ inflight.map (·.task.id)) : id ∈ (TaskQueue.put inflight lt).map (·.task.id) := by
  obtain ⟨o, ho, rfl⟩ := mem_map.mp h
  rw [TaskQueue.put, map_append, mem_append]
  by_cases he : o.task.id = lt.task.id
  · exact .inr (mem_singleton.mpr he)
  · exact .inl (mem_map_of_mem (mem_filter.mpr ⟨ho, decide_eq_true he⟩))

theorem mem_foldl_put {out : List LeasedTask} (inflight : List LeasedTask)
    (h : id ∈ inflight.map (·.task.id) ∨ id ∈ out.map (·.task.id)) :
    id ∈ (out.foldl TaskQueue.put inflight).map (·.task.id) := by
  induction out generalizing inflight with
  | nil => exact h.resolve_right not_mem_nil
  | cons lt out ih =>
    refine ih (TaskQueue.put inflight lt) ?_
    rcases h with h | h
    · exact .inl (mem_put h)
    rcases mem_cons.mp h with rfl | h
    · left
      rw [TaskQueue.put, map_append]
      exact mem_append_right _ mem_cons_self
    · exact .inr h

theorem take_keeps {n : Nat} {now : Time} :
    (q.flies id → (q.take n now).1.flies id) ∧ (q.holds id → (q.take n now).1.holds id) := by
  unfold TaskQueue.take
  split
  · exact ⟨fun h => h, fun h => h⟩
  refine ⟨fun h => mem_foldl_put _ (.inl h), fun h => ?_⟩
  rw [TaskQueue.holds, TaskQueue.outstanding, ← take_append_drop n q.pending] at h
  simp only [map_append, mem_append] at h
  rw [TaskQueue.holds, TaskQueue.outstanding, map_append, mem_append]
  rcases h with (h | h) | h
  · refine .inr (mem_foldl_put _ (.inr ?_))
    rw [map_map]
    exact h
  · exact .inl h
  · exact .inr (mem_foldl_put _ (.inl h))

variable {lt : LeasedTask}

theorem holds_of_mem (h : lt ∈ q.outstanding) : q.holds lt.task.id := mem_map_of_mem h

theorem flies_of_mem (h : lt ∈ q.inflight) : q.flies lt.task.id := mem_map_of_mem h

theorem not_kept {keep keep' : LeasedTask → Bool}
    (hq : q' = { q with pending := q.pending.filter keep, inflight := q.inflight.filter keep' }) :
    (lt ∈ q.outstanding → ¬ q'.holds lt.task.id →
      lt ∈ q.pending ∧ keep lt = false ∨ lt ∈ q.inflight ∧ keep' lt = false) ∧
      (lt ∈ q.inflight → ¬ q'.flies lt.task.id → keep' lt = false) := by
  subst hq
  constructor
  · intro hlt hnot
    rcases mem_append.mp hlt with hlt | hlt
    · refine .inl ⟨hlt, Bool.eq_false_iff.mpr fun hk => hnot (holds_of_mem ?_)⟩
      exact mem_append_left _ (mem_filter.mpr ⟨hlt, hk⟩)
    · refine .inr ⟨hlt, Bool.eq_false_iff.mpr fun hk => hnot (holds_of_mem ?_)⟩
      exact mem_append_right _ (mem_filter.mpr ⟨hlt, hk⟩)
  intro hlt hnot
  refine Bool.eq_false_iff.mpr fun hk => hnot (flies_of_mem ?_)
  exact mem_filter.mpr ⟨hlt, hk⟩

/-- The sweep returns what it drops, and takes only expired leases. -/
theorem sweep_takes {walk : List LeasedTask} (hwalk : walk.Perm q.inflight) {now : Time} :
    (lt ∈ q.outstanding → ¬ (q.sweep walk now).1.holds lt.task.id →
      lt.task ∈ (q.sweep walk now).2) ∧
      (lt ∈ q.inflight → ¬ (q.sweep walk now).1.flies lt.task.id → lt.expired now = true) := by
  constructor
  · intro hlt hnot
    -- what waits after the sweep, before the checks nobody took are thrown out
    have hdropped (hw : lt ∈ q.pending ++ (walk.filter (·.expired now)).filter fun lt => !lt.spent) :
        lt.task ∈ (q.sweep walk now).2 := by
      refine mem_map_of_mem (mem_append_right _ (mem_filter.mpr ⟨hw, ?_⟩))
      by_contra hclaimed
      refine hnot (holds_of_mem (mem_append_left _ (mem_filter.mpr ⟨hw, ?_⟩)))
      rw [Bool.eq_false_iff.mpr hclaimed, Bool.not_false]
    rcases mem_append.mp hlt with hp | hf
    · exact hdropped (mem_append_left _ hp)
    have hexpired : lt.expired now = true := by
      by_contra hlive
      refine hnot (holds_of_mem (mem_append_right _ (mem_filter.mpr ⟨hf, ?_⟩)))
      rw [Bool.eq_false_iff.mpr hlive, Bool.not_false]
    have hmem : lt ∈ walk.filter (·.expired now) :=
      mem_filter.mpr ⟨hwalk.mem_iff.mpr hf, hexpired⟩
    cases hspent : lt.spent with
    | true =>
      exact mem_map_of_mem (mem_append_left _ (mem_filter.mpr ⟨hmem, hspent⟩))
    | false =>
      refine hdropped (mem_append_right _ (mem_filter.mpr ⟨hmem, ?_⟩))
      rw [hspent, Bool.not_false]
  · intro hf hnot
    by_contra hlive
    refine hnot (flies_of_mem (mem_filter.mpr ⟨hf, ?_⟩))
    rw [Bool.eq_false_iff.mpr hlive, Bool.not_false]

theorem redeliver_takes {taskID : String} :
    (lt ∈ q.outstanding → (q.redeliver taskID).1.holds lt.task.id) ∧
      (lt ∈ q.inflight → ¬ (q.redeliver taskID).1.flies lt.task.id → taskID = lt.task.id) := by
  unfold TaskQueue.redeliver
  cases hfind : q.inflight.find? (·.task.id == taskID) with
  | none => exact ⟨fun h => holds_of_mem h, fun h hn => absurd (flies_of_mem h) hn⟩
  | some found =>
    dsimp only
    split
    · exact ⟨fun h => holds_of_mem h, fun h hn => absurd (flies_of_mem h) hn⟩
    have hid := find?_some hfind
    refine ⟨fun h => ?_, fun h hn => ?_⟩
    · by_cases he : lt.task.id = taskID
      · have hhead : found.task.id = lt.task.id := (beq_iff_eq.mp hid).trans he.symm
        exact hhead ▸ mem_cons_self
      refine holds_of_mem ?_
      rcases mem_append.mp h with h | h
      · exact mem_append_left _ (mem_cons_of_mem _ h)
      · exact mem_append_right _ (mem_filter.mpr ⟨h, decide_eq_true he⟩)
    · by_contra he
      exact hn (flies_of_mem (mem_filter.mpr ⟨h, decide_eq_true fun h => he h.symm⟩))

/-- What a call may take out of the queue, or out of flight. -/
theorem call_takes (hmay : completing.may () o) (hown : o.answersOwn q) (he : q.call e i o = some (q', a)) :
    (lt ∈ q.outstanding → ¬ q'.holds lt.task.id → o.mayEnd q e lt) ∧
      (lt ∈ q.inflight → ¬ q'.flies lt.task.id → o.mayLand e lt) := by
  have hsame (hq : q' = q) (P P' : Prop) : (lt ∈ q.outstanding → ¬ q'.holds lt.task.id → P) ∧
      (lt ∈ q.inflight → ¬ q'.flies lt.task.id → P') := by
    subst hq
    exact ⟨fun h hn => absurd (holds_of_mem h) hn, fun h hn => absurd (flies_of_mem h) hn⟩
  cases o with
  | enqueue t =>
    obtain rfl := congrArg Prod.fst (Option.some.inj he)
    unfold TaskQueue.enqueue
    split
    · exact ⟨fun h hn => hn (holds_of_mem h), fun h hn => hn (flies_of_mem h)⟩
    refine ⟨fun h hn => hn (holds_of_mem ?_), fun h hn => hn (flies_of_mem h)⟩
    rcases mem_append.mp h with h | h
    · exact mem_append_left _ (mem_append_left _ h)
    · exact mem_append_right _ h
  | take n =>
    obtain rfl := congrArg Prod.fst (Option.some.inj he)
    obtain ⟨hflies, hholds⟩ := take_keeps
    exact ⟨fun h hn => hn (hholds (holds_of_mem h)), fun h hn => hn (hflies (flies_of_mem h))⟩
  | redeliver taskID delivery =>
    obtain rfl := congrArg Prod.fst (Option.some.inj he)
    obtain ⟨hholds, hflies⟩ := redeliver_takes
    exact ⟨fun h hn => hn (hholds h),
      fun h hn => ⟨hflies h hn, (hown lt h (hflies h hn).symm).symm⟩⟩
  | complete taskID delivery applied =>
    cases he
    obtain ⟨hends, hlands⟩ := not_kept (q.complete taskID) (by rw [filter_true]; rfl)
    have hid (h : decide (lt.task.id ≠ taskID) = false) : taskID = lt.task.id :=
      (not_not.mp (decide_eq_false_iff_not.mp h)).symm
    refine ⟨fun h hn => ?_, fun h hn => ?_⟩
    · rcases hends h hn with ⟨_, hk⟩ | ⟨hf, hk⟩
      · cases hk
      obtain ⟨hdelivery, hsome⟩ := hown lt hf (hid hk).symm
      refine ⟨hid hk, hf, hdelivery.symm, ?_⟩
      -- a result was applied, and the program does not complete one that was refused
      match applied, hsome, hmay with
      | some (.ok ()), _, _ => rfl
      | some (.error err), _, hmay => exact absurd rfl (hmay err)
    · exact ⟨hid (hlands h hn), (hown lt h (hid (hlands h hn)).symm).1.symm⟩
  | withdraw picks inFlight =>
    cases he
    obtain ⟨hends, hlands⟩ := not_kept (q.withdraw picks inFlight) rfl
    have hpicks (h : (!(inFlight && picks lt.task)) = false) :
        inFlight = true ∧ picks lt.task = true := by
      rw [Bool.not_eq_false'] at h
      exact Bool.and_eq_true_iff.mp h
    refine ⟨fun h hn => ?_, fun h hn => hpicks (hlands h hn)⟩
    rcases hends h hn with ⟨_, hk⟩ | ⟨_, hk⟩
    · rw [Bool.not_eq_false'] at hk
      exact hk
    · exact (hpicks hk).2
  | sweep =>
    rw [TaskQueue.call] at he
    split at he <;> rename_i hperm
    · obtain rfl := congrArg Prod.fst (Option.some.inj he)
      obtain ⟨hends, hlands⟩ := sweep_takes (isPerm_iff.mp hperm)
      refine ⟨hends, fun h hn => ?_⟩
      have hexpired := hlands h hn
      rw [LeasedTask.expired, decide_eq_true_eq] at hexpired
      exact hexpired
    · cases he
  | retire | forget => exact ⟨fun _ _ => trivial, fun _ _ => trivial⟩
  | peek taskID | applyResult => exact hsame (congrArg Prod.fst (Option.some.inj he)).symm _ _

end

def UniqueIDs (w : QueueWorld) (moves : List QueueMove) : Prop :=
  w.Guarded TaskQueue.call QueueRequest.prog (fun w _ _ o => o.newID w.shared) moves

def AnswersOwn (w : QueueWorld) (moves : List QueueMove) : Prop :=
  w.Guarded TaskQueue.call QueueRequest.prog (fun w _ _ o => o.answersOwn w.shared) moves

structure QueueSound (w : QueueWorld) : Prop where
  booked : Booked w.shared
  completes : ∀ (i : Nat) (r : Running QueueRequest QueueCall QueueCall.Answer (Except String Unit)),
    w.procs[i]? = some r → completing.Keeps (fun _ _ => True) () r.rest

theorem run_sound {moves : List QueueMove} (hnew : UniqueIDs ⟨{}, []⟩ moves) :
    QueueSound (QueueWorld.run ⟨{}, []⟩ moves) := by
  refine World.run_induction QueueSound (fun w q h => ⟨h.booked, fun i r hr => ?_⟩)
    (fun w i e h hg => ?_) ⟨{}, []⟩ ⟨?_, fun i r hr => ?_⟩ hnew
  · rcases World.spawn_cases hr with hold | ⟨-, rfl⟩
    · exact h.completes i r hold
    · exact request_completes q
  · rcases World.step_cases with hsame | ⟨r, o, k, s, a, hp, he, hstep⟩
    · rw [hsame]
      exact h
    rw [hstep]
    have hnext : w.next i = some o := by
      rw [World.next, hp]
      rfl
    refine ⟨call_booked h.booked (hg o hnext) he, fun j r' hj => ?_⟩
    rcases World.set_cases hj with ⟨rfl, rfl⟩ | ⟨-, hold⟩
    · exact (h.completes i _ hp).2 a
    · exact h.completes j r' hold
  · exact ⟨⟨nodup_nil, nodup_nil, by simp [TaskQueue.outstanding],
      by simp [TaskQueue.outstanding], by simp [TaskQueue.outstanding],
      by simp [TaskQueue.outstanding], by simp⟩, by simp⟩
  · cases hr

/-- Over every interleaving of the callers of one host's queue, with task IDs of their own: a task
is in one place, a key is outstanding once, and no task is delivered more often than its kind
allows. Where an answer finds its task in flight only under the delivery it answers, none leaves
without a reason. -/
theorem tasks_accounted_for (moves before after : List QueueMove)
    (hnew : UniqueIDs ⟨{}, []⟩ moves) (hmoves : moves = before ++ after) :
    let w := QueueWorld.run ⟨{}, []⟩ before
    ((w.shared.pending ++ w.shared.inflight).map (·.task.id)).Nodup ∧
    ((w.shared.pending ++ w.shared.inflight).map (·.key)).Nodup ∧
    (∀ t ∈ w.shared.handed, w.shared.handed.countP (·.id == t.id) ≤ maxAttempts t.kind) ∧
    (AnswersOwn ⟨{}, []⟩ moves → ∀ i e rest, after = .step i e :: rest →
      let w' := QueueWorld.run ⟨{}, []⟩ (before ++ [.step i e])
      ∀ lt, (lt ∈ w.shared.pending ++ w.shared.inflight → ¬ w'.shared.holds lt.task.id →
          ∃ o, w.next i = some o ∧ o.mayEnd w.shared e lt) ∧
        (lt ∈ w.shared.inflight → ¬ w'.shared.flies lt.task.id →
          ∃ o, w.next i = some o ∧ o.mayLand e lt)) := by
  subst hmoves
  have hsound := run_sound ((World.guarded_append _).mp hnew).1
  have hbooked := hsound.booked.books
  refine ⟨hbooked.ids, hbooked.keys, fun t ht => (hbooked.bounded t ht).2, ?_⟩
  rintro hown i e rest rfl
  have hafter := ((World.guarded_append _).mp hown).2
  have hrun : QueueWorld.run ⟨{}, []⟩ (before ++ [.step i e]) =
      World.step TaskQueue.call (QueueWorld.run ⟨{}, []⟩ before) i e := foldl_append
  have hguard : ∀ o, (QueueWorld.run ⟨{}, []⟩ before).next i = some o →
      o.answersOwn (QueueWorld.run ⟨{}, []⟩ before).shared := hafter.1
  intro w' lt
  generalize QueueWorld.run ⟨{}, []⟩ before = w at hrun hguard hsound ⊢
  rcases World.step_cases with hsame | ⟨r, o, k, s, a, hp, he, hstep⟩
  · have hq : w'.shared = w.shared := congrArg World.shared (hrun.trans hsame)
    rw [hq]
    exact ⟨fun h hn => absurd (holds_of_mem h) hn, fun h hn => absurd (flies_of_mem h) hn⟩
  have hq : w'.shared = s := congrArg World.shared (hrun.trans hstep)
  have hnext : w.next i = some o := by
    rw [World.next, hp]
    rfl
  obtain ⟨hends, hlands⟩ := call_takes s (hsound.completes i _ hp).1 (hguard o hnext) he
  rw [hq]
  exact ⟨fun h hn => ⟨o, hnext, hends h hn⟩, fun h hn => ⟨o, hnext, hlands h hn⟩⟩

def createTask : Task := { id := "task_1", kind := .createRunner, runnerID := "run_1" }

def givenBack : List QueueMove :=
  [.spawn (.enqueue createTask), .spawn .poll, .spawn (.report ⟨"task_1", false, true⟩ 1),
    .spawn .poll, .step 0 {}, .step 1 {}, .step 2 {}, .step 2 {}, .step 3 {}]

def appliedOnce : List QueueMove :=
  [.spawn (.enqueue createTask), .spawn .poll, .spawn (.report ⟨"task_1", true, false⟩ 1),
    .step 0 {}, .step 1 {}, .step 2 {}, .step 2 {}, .step 2 {}]

theorem tasks_accounted_for_appliedOnce :
    ∃ o, (QueueWorld.run ⟨{}, []⟩ (appliedOnce.take 7)).next 2 = some o ∧
      o.mayEnd (QueueWorld.run ⟨{}, []⟩ (appliedOnce.take 7)).shared {}
        (LeasedTask.deliver 0 { task := createTask, key := taskKey createTask }) := by
  have hnew : UniqueIDs ⟨{}, []⟩ appliedOnce := by
    unfold UniqueIDs
    decide +kernel
  have hown : AnswersOwn ⟨{}, []⟩ appliedOnce := by
    unfold AnswersOwn
    decide +kernel
  refine ((tasks_accounted_for appliedOnce (appliedOnce.take 7) [.step 2 {}] hnew rfl).2.2.2 hown
    2 {} [] rfl _).1 (by decide +kernel) ?_
  unfold TaskQueue.holds
  decide +kernel

/-- The second delivery loses its lease to the deferred `complete` of the first, though nothing
answered it. -/
theorem second_delivery_lost :
    (QueueWorld.run ⟨{}, []⟩ (givenBack.take 7 ++ [.step 3 {}])).shared.inflight.map
      (fun lt => (lt.attempts, lt.expires)) = [(2, 20 * minute)] ∧
    (QueueWorld.run ⟨{}, []⟩ (givenBack.take 7 ++ [.step 3 {}, .step 2 {}])).shared.outstanding =
      [] := by
  decide +kernel

end Zoomies.Controller
