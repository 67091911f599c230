import Zoomies.EventsTracking

/-! One client's feed has no gap it was not told of, and no class holds more streams than were let
in. -/
namespace Zoomies.Events
open Zoomies.Go List

structure Fixed (s s' : System) : Prop where
  depths : s'.process.bus.depths = s.process.bus.depths
  kinds : s'.client.kinds = s.client.kinds
  topicPrefix : s'.client.topicPrefix = s.client.topicPrefix

theorem Fixed.trans (s1 s2 s3 : System) (h : Fixed s1 s2) (h' : Fixed s2 s3) : Fixed s1 s3 :=
  ⟨h'.depths.trans h.depths, h'.kinds.trans h.kinds, h'.topicPrefix.trans h.topicPrefix⟩

section
variable (k : Nat) (p q : Process) (h : CloseEffect k p q)
include h

theorem CloseEffect.depths : q.bus.depths = p.bus.depths := by
  cases h with
  | kept hbus _ => rw [hbus]
  | ended hbus _ =>
    rw [hbus]
    rfl

theorem CloseEffect.subs : q.bus.subs.Sublist p.bus.subs := by
  cases h with
  | kept hbus _ => rw [hbus]
  | ended hbus _ =>
    rw [hbus]
    exact filter_sublist

end

def Op.opening : Op → Option (String × Int)
  | .subscribe opts limit => some (opts.className, opts.ceiling limit)
  | .connect _ _ className classLimit limit =>
    some (className, if className ≠ "" then classLimit else limit)
  | _ => none

inductive StepEffect (s : System) : Op → System → Prop
  | unframed (kind : Kind) (topic : String) (v : Option Payload) (now : Time) (keep : Bool) :
    StepEffect s (.publish kind topic v now keep) s
  | published (kind : Kind) (topic : String) (v : Option Payload) (now : Time) (keep : Bool)
      (e : Event) (q : Process) (hq : publish e keep s.process = .ok q) :
    StepEffect s (.publish kind topic v now keep)
      { s with process := q, log := s.log ++ [⟨s.process.bus.stamped e, keep⟩] }
  | refused (opts : SubscribeOptions) (limit : Int) : StepEffect s (.subscribe opts limit) s
  | joined (opts : SubscribeOptions) (limit : Int) (hroom : ¬opts.refused limit s.process.bus) :
    StepEffect s (.subscribe opts limit) { s with process := s.process.joined opts }
  | closed (k : Nat) (q : Process) (h : CloseEffect k s.process q) :
    StepEffect s (.close k) { s with process := q }
  | finished (k : Nat) (q : Process) (h : CloseEffect k s.process q) :
    StepEffect s (.finish k) { s with process := q }
  | received (k : Nat) : StepEffect s (.receive k) { s with
      process := s.process.setChannel k (s.process.channel k).receive.2
      client := if s.client.current = some k then s.client.take (s.process.channel k).receive.1
        else s.client }
  | turnedAway (replay : Nat) (incomplete : Bool) (className : String) (classLimit limit : Int) :
    StepEffect s (.connect replay incomplete className classLimit limit)
      { s with client := { s.client with current := none } }
  | connected (replay : Nat) (incomplete : Bool) (className : String) (classLimit limit : Int)
      (opts : SubscribeOptions)
      (hopts : opts = s.client.options replay incomplete className classLimit)
      (hroom : ¬opts.refused limit s.process.bus) :
    StepEffect s (.connect replay incomplete className classLimit limit) { s with
      process := s.process.joined opts
      client := s.client.resumed (opts.handle s.process.bus) }

theorem step_effect {s : System} {op : Op} (hsound : Sound s.process) :
    ∃ s', s.step op = .ok s' ∧ Sound s'.process ∧ StepEffect s op s' := by
  cases op with
  | publish kind topic v now keep =>
    rw [System.step]
    cases frame kind topic v now with
    | none => exact ⟨s, rfl, hsound, .unframed kind topic v now keep⟩
    | some e =>
      obtain ⟨q, hq, -⟩ := publish_ok hsound
      dsimp only
      rw [hq]
      exact ⟨_, rfl, sound_publish hsound hq, .published kind topic v now keep e q hq⟩
  | subscribe opts limit =>
    rw [System.step]
    rcases subscribeWithin_ok hsound with ⟨-, hr⟩ | ⟨hroom, hr⟩
    · rw [hr]
      exact ⟨s, rfl, hsound, .refused opts limit⟩
    · rw [hr]
      exact ⟨_, rfl, sound_joined hsound, .joined opts limit hroom⟩
  | close k =>
    obtain ⟨q, hq, hsound', heffect⟩ := beginClose_ok hsound
    rw [System.step, hq]
    exact ⟨_, rfl, hsound', .closed k q heffect⟩
  | finish k =>
    obtain ⟨q, hq, hsound', hbus, hchan⟩ := finishClose_ok hsound
    rw [System.step, hq]
    exact ⟨_, rfl, hsound', .finished k q (.kept hbus hchan)⟩
  | receive k => exact ⟨_, rfl, sound_receive hsound, .received k⟩
  | connect replay incomplete className classLimit limit =>
    rw [System.step]
    rcases subscribeWithin_ok hsound with ⟨-, hr⟩ | ⟨hroom, hr⟩
    · rw [hr]
      exact ⟨_, rfl, hsound, .turnedAway replay incomplete className classLimit limit⟩
    rw [hr]
    exact ⟨_, rfl, sound_joined hsound,
      .connected replay incomplete className classLimit limit _ rfl hroom⟩

section
variable {s s' : System} {op : Op} (heffect : StepEffect s op s')
include heffect

theorem tracking_step (hsound : Sound s.process) (h : Tracking s) : Tracking s' := by
  cases heffect with
  | unframed | refused => exact h
  | published kind topic v now keep e q hq => exact tracking_publish h hsound hq
  | joined opts => exact tracking_subscribe h
  | closed k q hclose | finished k q hclose => exact tracking_close h hclose
  | received k =>
    by_cases hcur : s.client.current = some k
    · rw [if_pos hcur]
      exact tracking_receive h hcur
    · rw [if_neg hcur]
      exact tracking_receive_other h hcur
  | turnedAway => exact tracking_refused h
  | connected replay incomplete className classLimit limit opts hopts =>
    exact tracking_connect h hsound hopts

theorem fixed_step (hsound : Sound s.process) : Fixed s s' := by
  cases heffect with
  | unframed | refused | joined | turnedAway | connected => exact ⟨rfl, rfl, rfl⟩
  | published kind topic v now keep e q hq =>
    obtain ⟨q', hq', hbus, -⟩ := publish_ok hsound
    rw [hq, Except.ok.injEq] at hq'
    subst hq'
    refine ⟨?_, rfl, rfl⟩
    dsimp only
    rw [hbus, number_eq]
  | closed k q hclose | finished k q hclose => exact ⟨hclose.depths, rfl, rfl⟩
  | received k =>
    refine ⟨rfl, ?_, ?_⟩
    · dsimp only
      split <;> rfl
    · dsimp only
      split <;> rfl

theorem subs_step (hsound : Sound s.process) :
    s'.process.bus.subs.Sublist s.process.bus.subs ∨ ∃ opts limit,
      op.opening = some (opts.className, opts.ceiling limit) ∧
      ¬opts.refused limit s.process.bus ∧ s'.process = s.process.joined opts := by
  cases heffect with
  | unframed | refused | received k | turnedAway => exact .inl (List.Sublist.refl _)
  | published kind topic v now keep e q hq =>
    obtain ⟨q', hq', -, -, hsub, -⟩ := publish_ok hsound
    rw [hq, Except.ok.injEq] at hq'
    subst hq'
    exact .inl hsub
  | joined opts limit hroom => exact .inr ⟨opts, limit, rfl, hroom, rfl⟩
  | closed k q hclose | finished k q hclose => exact .inl hclose.subs
  | connected replay incomplete className classLimit limit opts hopts hroom =>
    refine .inr ⟨opts, limit, ?_, hroom, rfl⟩
    rw [hopts]
    rfl

end

theorem tracking_init {d : Depths} {kinds : List Kind} {topicPrefix : String} :
    Tracking (System.init d kinds topicPrefix) := by
  refine ⟨⟨(fun x hx => nomatch hx), List.Pairwise.nil, ?_⟩, (fun e he => nomatch he),
    (fun k hk => nomatch hk), fun _ => gapless_nil, (fun k hk => nomatch hk),
    (fun _ k hk => nomatch hk)⟩
  exact drop_nil.symm

theorem run_ok (s : System) {ops : List Op} (hsound : Sound s.process) (h : Tracking s) :
    ∃ s', s.run ops = .ok s' ∧ Sound s'.process ∧ Tracking s' ∧ Fixed s s' := by
  induction ops generalizing s with
  | nil => exact ⟨s, rfl, hsound, h, rfl, rfl, rfl⟩
  | cons op rest ih =>
    obtain ⟨s1, h1, hsound1, heffect⟩ := step_effect hsound
    have hfixed1 := fixed_step heffect hsound
    obtain ⟨s2, h2, hsound2, htracking2, hfixed2⟩ :=
      ih s1 hsound1 (tracking_step heffect hsound h)
    refine ⟨s2, ?_, hsound2, htracking2, hfixed1.trans _ _ _ hfixed2⟩
    rw [System.run, foldlM_cons, h1]
    exact h2

section
variable (className : String) {ceiling : Int}

theorem count_of_sublist {b b' : Bus} (h : b'.subs.Sublist b.subs) :
    countLocked className b' ≤ countLocked className b := h.countP_le

theorem count_joined {opts : SubscribeOptions} {limit : Int} {p : Process} (hpos : 0 < ceiling)
    (hsame : opts.className = className → opts.ceiling limit = ceiling)
    (hroom : ¬opts.refused limit p.bus) (h : (countLocked className p.bus : Int) ≤ ceiling) :
    (countLocked className (p.joined opts).bus : Int) ≤ ceiling := by
  have hcount : countLocked className (p.joined opts).bus =
      countLocked className p.bus + if opts.className = className then 1 else 0 := by
    change List.countP _ (p.bus.subs ++ [opts.subscriber p.bus]) = _
    rw [countP_append, countP_singleton]
    congr 1
    change (if (opts.className == className) = true then 1 else 0) = _
    simp
  rw [hcount]
  by_cases hclass : opts.className = className
  · rw [if_pos hclass]
    have hlt : (countLocked className p.bus : Int) < ceiling := by
      by_contra hge
      apply hroom
      rw [SubscribeOptions.refused, hsame hclass, hclass]
      exact ⟨hpos, not_lt.mp hge⟩
    push_cast
    omega
  · rw [if_neg hclass]
    exact h

theorem count_step {s s' : System} {op : Op} (heffect : StepEffect s op s')
    (hsound : Sound s.process) (hpos : 0 < ceiling)
    (hop : ∀ c, op.opening = some (className, c) → c = ceiling)
    (h : (countLocked className s.process.bus : Int) ≤ ceiling) :
    (countLocked className s'.process.bus : Int) ≤ ceiling := by
  rcases subs_step heffect hsound with hsub | ⟨opts, limit, hopens, hroom, hjoined⟩
  · have hle := count_of_sublist className hsub
    omega
  rw [hjoined]
  refine count_joined className hpos (fun hclass => ?_) hroom h
  rw [hclass] at hopens
  exact hop _ hopens

theorem run_count (s : System) {s' : System} {ops : List Op} (hsound : Sound s.process)
    (hrun : s.run ops = .ok s') (hpos : 0 < ceiling)
    (hops : ∀ op ∈ ops, ∀ c, op.opening = some (className, c) → c = ceiling)
    (h : (countLocked className s.process.bus : Int) ≤ ceiling) :
    (countLocked className s'.process.bus : Int) ≤ ceiling := by
  induction ops generalizing s with
  | nil =>
    rw [System.run, foldlM_nil] at hrun
    rw [← Except.ok.inj hrun]
    exact h
  | cons op rest ih =>
    obtain ⟨s1, h1, hsound1, heffect⟩ := step_effect hsound
    rw [System.run, foldlM_cons, h1] at hrun
    exact ih s1 hsound1 hrun (fun x hx => hops x (mem_cons_of_mem _ hx))
      (count_step className heffect hsound hpos (hops op mem_cons_self) h)

end

/-- No run of the bus panics; its ring is the last of the kept events; no class has more open
subscriptions than their ceiling; and a client never told a resumed subscription is incomplete has
received, in order and once each, every kept event it asked for between the first and the last it
received, and to this moment if its subscription is open and its channel read. -/
theorem stream_gapless (d : Depths) (kinds : List Kind) (topicPrefix : String) (ops : List Op) :
    ∃ s, (System.init d kinds topicPrefix).run ops = .ok s ∧
      s.process.bus.ring.Pairwise (fun a b => a.id < b.id) ∧
      s.process.bus.ring = (keptEvents s.log).rtake d.ringCap ∧
      (∀ className (ceiling : Int), 0 < ceiling →
        (∀ op ∈ ops, ∀ c, op.opening = some (className, c) → c = ceiling) →
        (countLocked className s.process.bus : Int) ≤ ceiling) ∧
      (s.client.told = false → s.client.received.Pairwise (fun a b => a.id < b.id) ∧
        (∀ w ∈ keptEvents s.log,
          SubscribeOptions.matches { kinds := kinds, topicPrefix := topicPrefix } w = true →
          ∀ a ∈ s.client.received, ∀ b ∈ s.client.received, a.id ≤ w.id → w.id ≤ b.id →
            s.client.received.count w = 1) ∧
        ∀ k, s.client.current = some k → (∃ t ∈ s.process.bus.subs, t.id = k) →
          (s.process.channel k).queue = [] → ∀ w ∈ keptEvents s.log,
          SubscribeOptions.matches { kinds := kinds, topicPrefix := topicPrefix } w = true →
            ∀ a ∈ s.client.received, a.id ≤ w.id → s.client.received.count w = 1) := by
  have hsound : Sound (System.init d kinds topicPrefix).process := Sound.init
  obtain ⟨s, hrun, -, h, hfixed⟩ := run_ok _ hsound tracking_init
  have hwants : ∀ w, SubscribeOptions.matches { kinds := kinds, topicPrefix := topicPrefix } w =
      s.client.wants w := by
    intro w
    have hk : kinds = s.client.kinds := hfixed.kinds.symm
    have ht : topicPrefix = s.client.topicPrefix := hfixed.topicPrefix.symm
    rw [hk, ht]
    rfl
  refine ⟨s, hrun, ring_rising h.recorded, ?_, ?_, ?_⟩
  · have hdepths : s.process.bus.depths = d := hfixed.depths
    rw [h.recorded.ring, hdepths]
  · intro className ceiling hpos hops
    refine run_count className _ hsound hrun hpos hops ?_
    exact le_of_lt hpos
  intro htold
  have hgapless := (h.gapless htold).left
  refine ⟨hgapless.rising, ?_, ?_⟩
  · intro w hw hmatch a ha b hb hle hge
    rw [hwants] at hmatch
    exact count_of_rising hgapless.rising (hgapless.between a ha b hb w ⟨hw, hmatch⟩ hle hge)
  intro k hk hlive hempty w hw hmatch a ha hle
  rw [hwants] at hmatch
  have hfeed : s.feed = s.client.received := by
    rw [System.feed, hk]
    dsimp only
    rw [hempty, append_nil]
  have hup := h.live htold k hk hlive
  rw [hfeed] at hup
  exact count_of_rising hup.rising (hup.onward a ha w ⟨hw, hmatch⟩ hle)

def Covers (log : List Published) (since : Nat) (filter : Event → Bool) (items : List Event) :
    Prop :=
  -- every event after `since` that passes the filter, kept or not, is among the items
  ∀ x ∈ log, since < x.event.id → filter x.event = true → x.event ∈ items

def NoneTransient (log : List Published) (since : Nat) (filter : Event → Bool) : Prop :=
  -- no event after `since` that passes the filter was sent without being kept
  ∀ x ∈ log, x.kept = false → filter x.event = true → x.event.id ≤ since

def OutOfReach (b : Bus) (since : Nat) : Prop :=
  -- the ring starts after the event that follows `since`, or is empty
  ∀ oldest, b.ring.head? = some oldest → since + 1 < oldest.id

section
variable {b : Bus} {log : List Published} {since : Nat} (filter : Event → Bool)

theorem complete_of_reach {oldest : Event} (hhead : b.ring.head? = some oldest)
    (hreach : oldest.id ≤ since + 1) (hlt : since < b.seq) :
    (replayLocked b since filter).2 = true := by
  dsimp only [replayLocked]
  split
  · rw [if_neg (by omega), if_neg (by omega), hhead]
    exact decide_eq_true hreach
  · rfl

theorem incomplete_of_outOfReach (hpos : 0 < since) (hout : OutOfReach b since)
    (hlt : since < b.seq) : (replayLocked b since filter).2 = false := by
  dsimp only [replayLocked]
  rw [if_pos hpos, if_neg (by omega), if_neg (by omega)]
  cases hhead : b.ring.head? with
  | none => rfl
  | some oldest =>
    have hlt := hout oldest hhead
    exact decide_eq_false (by omega)

theorem kept_of_mem (h : Recorded b log) {x : Published} (hx : x ∈ log)
    (hk : x.event ∈ keptEvents log) : x.kept = true := by
  obtain ⟨y, hy, hkept, he⟩ := mem_kept hk
  have hids : (log.map fun x => x.event.id).Nodup :=
    pairwise_map.mpr (h.rising.imp Nat.ne_of_lt)
  have hsame : y = x := inj_on_of_nodup_map hids hy hx (congrArg Event.id he)
  rw [← hsame]
  exact hkept

/-- A replay said to be complete is, unless an event was transient and `since` within reach. -/
theorem replay_complete_iff (h : Recorded b log) (hpos : 0 < since) :
    ((replayLocked b since filter).2 = true →
        Covers log since filter (replayLocked b since filter).1) ↔
      NoneTransient log since filter ∨ OutOfReach b since := by
  constructor
  · intro hcovers
    by_contra hneither
    rw [not_or] at hneither
    obtain ⟨htransient, hreach⟩ := hneither
    simp only [NoneTransient, OutOfReach, not_forall, not_le, not_lt] at htransient hreach
    obtain ⟨x, hx, hkept, hmatch, hlt⟩ := htransient
    obtain ⟨oldest, hhead, hle⟩ := hreach
    have hseq := (h.numbered x hx).2
    have hcomplete := complete_of_reach filter hhead hle (by omega)
    have hmem := hcovers hcomplete x hx hlt hmatch
    have hring := (mem_filter.mp hmem).1
    have htrue := kept_of_mem h hx (ring_subset h hring)
    rw [hkept] at htrue
    cases htrue
  · intro hcond hcomplete x hx hlt hmatch
    have hseq := (h.numbered x hx).2
    rcases hcond with hnone | hout
    · have hkept : x.kept = true := by
        by_contra hfalse
        have hle := hnone x hx (eq_false_of_ne_true hfalse) hmatch
        omega
      have hmem : x.event ∈ keptEvents log :=
        mem_map.mpr ⟨x, mem_filter.mpr ⟨hx, hkept⟩, rfl⟩
      have hring := replay_covers h hpos hcomplete hmem hlt
      refine mem_filter.mpr ⟨hring, ?_⟩
      rw [Bool.and_eq_true, decide_eq_true_eq]
      exact ⟨hlt, hmatch⟩
    · rw [incomplete_of_outOfReach filter hpos hout (by omega)] at hcomplete
      cases hcomplete

end

theorem recent_whole {since : Nat} {opts : SubscribeOptions} {limit : Int} {b : Bus}
    (h : (recent since opts limit b).2.2 = false) :
    recent since opts limit b = ((replayLocked b since opts.matches).1,
      (replayLocked b since opts.matches).2, false) := by
  dsimp only [recent] at h ⊢
  split at h
  · cases h
  · rename_i hlimit
    rw [if_neg hlimit]

/-- Complete means that nothing was missed exactly when no matching event after `since` was
transient, or the answer was not complete to begin with. -/
theorem complete_means_all_iff (d : Depths) (kinds : List Kind) (topicPrefix : String)
    (ops : List Op) (s : System) (hrun : (System.init d kinds topicPrefix).run ops = .ok s)
    (opts : SubscribeOptions) (hsince : ∃ x ∈ s.log, x.event.id = opts.replay) :
    (∀ limit sub p, subscribeWithin opts limit s.process = .ok (some sub, p) →
      ((sub.complete = true → Covers s.log opts.replay opts.matches (p.channel sub.id).queue) ↔
        NoneTransient s.log opts.replay opts.matches ∨ OutOfReach s.process.bus opts.replay ∨
          opts.incomplete = true)) ∧
    ∀ limit, (recent opts.replay opts limit s.process.bus).2.2 = false →
      (((recent opts.replay opts limit s.process.bus).2.1 = true →
          Covers s.log opts.replay opts.matches (recent opts.replay opts limit s.process.bus).1) ↔
        NoneTransient s.log opts.replay opts.matches ∨ OutOfReach s.process.bus opts.replay) := by
  obtain ⟨s', hrun', hsound, htrack, -⟩ := run_ok _ Sound.init tracking_init
  have hs : s' = s := Except.ok.inj (hrun'.symm.trans hrun)
  subst hs
  have hpos : 0 < opts.replay := by
    obtain ⟨x, hx, hid⟩ := hsince
    rw [← hid]
    exact (htrack.recorded.numbered x hx).1
  have hiff := replay_complete_iff opts.matches htrack.recorded hpos
  constructor
  · intro limit sub p hsub
    rcases subscribeWithin_ok hsound with ⟨-, hr⟩ | ⟨-, hr⟩
    · rw [hr] at hsub
      cases hsub
    rw [hr, Except.ok.injEq, Prod.mk.injEq, Option.some.injEq] at hsub
    obtain ⟨rfl, rfl⟩ := hsub
    have hqueue : ((s'.process.joined opts).channel (opts.handle s'.process.bus).id).queue =
        (replayLocked s'.process.bus opts.replay opts.matches).1 := by
      rw [← missed_filter hpos]
      exact congrArg Channel.queue (if_pos rfl)
    have hcomplete : (opts.handle s'.process.bus).complete =
        ((replayLocked s'.process.bus opts.replay opts.matches).2 && !opts.incomplete) := by
      rw [← missed_filter hpos]
      rfl
    rw [hqueue, hcomplete]
    cases opts.incomplete with
    | true => simp
    | false =>
      rw [Bool.not_false, Bool.and_true, hiff]
      simp
  · intro limit hwhole
    rw [recent_whole hwhole]
    exact hiff

def awayFor (keep : Bool) : List Op :=
  [.connect 0 false "" 0 0, .publish .runnerUpdated "runner:run_1" none 0 true, .receive 1,
    .close 1, .publish .resync "" none 0 keep]

theorem complete_means_all_kept : ∃ s, (System.init {} [] "").run (awayFor true) = .ok s ∧
      (recent 1 { replay := 1 } 0 s.process.bus).2.1 = true ∧
      Covers s.log 1 (SubscribeOptions.matches { replay := 1 })
        (recent 1 { replay := 1 } 0 s.process.bus).1 := by
  obtain ⟨s, hrun, -⟩ := run_ok _ Sound.init tracking_init
  have hfacts : (((System.init {} [] "").run (awayFor true)).toOption.map fun s =>
      (s.log.all (·.kept), s.log.any (·.event.id == 1), (recent 1 { replay := 1 } 0 s.process.bus).2)) =
        some (true, true, true, false) := by
    decide +kernel
  rw [hrun] at hfacts
  have hfacts' := Option.some.inj hfacts
  rw [Prod.mk.injEq, Prod.mk.injEq, Prod.ext_iff] at hfacts'
  obtain ⟨hkept, hfirst, hcomplete, hwhole⟩ := hfacts'
  obtain ⟨x, hx, hid⟩ := any_eq_true.mp hfirst
  refine ⟨s, hrun, hcomplete, ?_⟩
  refine ((complete_means_all_iff {} [] "" (awayFor true) s hrun { replay := 1 }
    ⟨x, hx, beq_iff_eq.mp hid⟩).2 0 hwhole).mpr (.inl ?_) hcomplete
  intro y hy hlost
  rw [all_eq_true.mp hkept y hy] at hlost
  cases hlost

/-- The resync went out while the client was away, and it is told that it has everything. -/
theorem resync_missed : ∃ s, (System.init {} [] "").run (awayFor false) = .ok s ∧
      s.client.received.map Event.id = [1] ∧
      (∃ x ∈ s.log, x.event.id = 2 ∧ x.event.kind = .resync) ∧
      recent 1 { replay := 1 } 0 s.process.bus = ([], true, false) ∧
      ∃ sub p, subscribeWithin { replay := 1 } 0 s.process = .ok (some sub, p) ∧
        sub.complete = true ∧ (p.channel sub.id).queue = [] := by
  refine ⟨_, rfl, by decide +kernel, ?_, by decide +kernel, _, _, rfl, by decide +kernel,
    by decide +kernel⟩
  decide +kernel

end Zoomies.Events
