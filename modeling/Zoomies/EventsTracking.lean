import Zoomies.EventsBus
import Zoomies.GaplessFeed

/-! One client of the stream: it reads its channel, and comes back with the last event it received.
-/
namespace Zoomies.Events
open Zoomies.Go List

structure Published where
  event : Event
  kept : Bool

def keptEvents (log : List Published) : List Event := (log.filter (·.kept)).map (·.event)

structure Client where
  kinds : List Kind := []
  topicPrefix : String := ""
  received : List Event := []
  current : Option Nat := none
  told : Bool := false

def Client.options (c : Client) (replay : Nat) (incomplete : Bool) (className : String)
    (classLimit : Int) : SubscribeOptions :=
  { kinds := c.kinds
    topicPrefix := c.topicPrefix
    replay := match c.received.getLast? with
      | some last => last.id
      | none => replay
    incomplete := incomplete
    className := className
    classLimit := classLimit }

def Client.wants (c : Client) (e : Event) : Bool := (c.options 0 false "" 0).matches e

def Client.take (c : Client) (e : Option Event) : Client :=
  { c with received := c.received ++ e.toList }

structure System where
  process : Process
  log : List Published := []
  client : Client

inductive Op
  | publish (kind : Kind) (topic : String) (v : Option Payload) (now : Time) (keep : Bool)
  | subscribe (opts : SubscribeOptions) (limit : Int)
  | close (k : Nat)
  | finish (k : Nat)
  | receive (k : Nat)
  | connect (replay : Nat) (incomplete : Bool) (className : String) (classLimit limit : Int)

def System.step (s : System) : Op → Except ChannelPanic System
  | .publish kind topic v now keep =>
    match frame kind topic v now with
    | none => .ok s
    | some e =>
      match Events.publish e keep s.process with
      | .error x => .error x
      | .ok p => .ok { s with process := p, log := s.log ++ [⟨s.process.bus.stamped e, keep⟩] }
  | .subscribe opts limit =>
    match subscribeWithin opts limit s.process with
    | .error x => .error x
    | .ok r => .ok { s with process := r.2 }
  | .close k =>
    match beginClose k s.process with
    | .error x => .error x
    | .ok p => .ok { s with process := p }
  | .finish k =>
    match finishClose k s.process with
    | .error x => .error x
    | .ok p => .ok { s with process := p }
  | .receive k =>
    let c := s.process.channel k
    .ok { s with
      process := s.process.setChannel k c.receive.2
      client := if s.client.current = some k then s.client.take c.receive.1 else s.client }
  | .connect replay incomplete className classLimit limit =>
    match subscribeWithin (s.client.options replay incomplete className classLimit) limit
        s.process with
    | .error x => .error x
    | .ok (none, p) => .ok { s with process := p, client := { s.client with current := none } }
    | .ok (some sub, p) =>
      .ok { s with
        process := p
        client := { s.client with
          current := some sub.id
          told := s.client.told || (!s.client.received.isEmpty && !sub.complete) } }

def System.run (s : System) (ops : List Op) : Except ChannelPanic System := ops.foldlM System.step s

def System.init (d : Depths) (kinds : List Kind) (topicPrefix : String) : System :=
  { process := { bus := { depths := d } }
    client := { kinds := kinds, topicPrefix := topicPrefix } }

section

structure Recorded (b : Bus) (log : List Published) : Prop where
  numbered : ∀ x ∈ log, 1 ≤ x.event.id ∧ x.event.id ≤ b.seq
  rising : log.Pairwise fun x y => x.event.id < y.event.id
  ring : b.ring = (keptEvents log).rtake b.depths.ringCap

variable (b : Bus) {log : List Published}

theorem kept_rising (h : Recorded b log) : (keptEvents log).Pairwise fun a b => a.id < b.id :=
  pairwise_map.mpr (h.rising.filter _)

variable {e : Event}

theorem mem_kept (h : e ∈ keptEvents log) : ∃ x ∈ log, x.kept = true ∧ x.event = e := by
  obtain ⟨x, hx, he⟩ := mem_map.mp h
  obtain ⟨hlog, hk⟩ := mem_filter.mp hx
  exact ⟨x, hlog, hk, he⟩

theorem kept_numbered (h : Recorded b log) (he : e ∈ keptEvents log) : 1 ≤ e.id ∧ e.id ≤ b.seq := by
  obtain ⟨x, hx, -, rfl⟩ := mem_kept he
  exact h.numbered x hx

variable {b}

theorem ring_subset (h : Recorded b log) (he : e ∈ b.ring) : e ∈ keptEvents log := by
  rw [h.ring] at he
  exact mem_of_mem_drop he

theorem ring_rising (h : Recorded b log) : b.ring.Pairwise fun a b => a.id < b.id := by
  rw [h.ring]
  exact (kept_rising b h).sublist (drop_sublist _ _)

theorem ring_onward (h : Recorded b log) {a w : Event} (ha : a ∈ b.ring)
    (hw : w ∈ keptEvents log) (hle : a.id ≤ w.id) : w ∈ b.ring := by
  rw [h.ring] at ha ⊢
  exact mem_drop_of_rising (kept_rising b h) ha hw hle

theorem replay_covers (h : Recorded b log) {since : Nat} {filter : Event → Bool}
    (hpos : 0 < since) (hcomplete : (replayLocked b since filter).2 = true) {w : Event}
    (hw : w ∈ keptEvents log) (hlt : since < w.id) : w ∈ b.ring := by
  have hseq := (kept_numbered b h hw).2
  dsimp only [replayLocked] at hcomplete
  rw [if_pos hpos, if_neg (by omega), if_neg (by omega)] at hcomplete
  cases hhead : b.ring.head? with
  | none =>
    rw [hhead] at hcomplete
    exact absurd hcomplete Bool.false_ne_true
  | some oldest =>
    rw [hhead] at hcomplete
    have hle : oldest.id ≤ since + 1 := of_decide_eq_true hcomplete
    exact ring_onward h (mem_of_head? hhead) hw (by omega)

theorem rtake_snoc {α : Type} (l : List α) (x : α) (n : Nat) :
    (l.rtake n ++ [x]).rtake n = (l ++ [x]).rtake n := by
  rw [List.rtake, List.rtake, List.rtake, ← drop_append_of_le_length (Nat.sub_le _ _), drop_drop]
  congr 1
  rw [length_drop, length_append, length_singleton]
  omega

theorem recorded_publish (h : Recorded b log) {keep : Bool} :
    Recorded (b.number e keep) (log ++ [⟨b.stamped e, keep⟩]) := by
  have hnumber := number_eq b e keep
  refine ⟨?_, ?_, ?_⟩
  · intro x hx
    rw [hnumber]
    rcases mem_append.mp hx with hx | hx
    · obtain ⟨h1, h2⟩ := h.numbered x hx
      exact ⟨h1, Nat.le_succ_of_le h2⟩
    · rw [mem_singleton.mp hx]
      exact ⟨Nat.le_add_left 1 _, Nat.le_refl _⟩
  · refine pairwise_append.mpr ⟨h.rising, pairwise_singleton _ _, ?_⟩
    intro x hx y hy
    rw [mem_singleton.mp hy]
    exact Nat.lt_succ_of_le (h.numbered x hx).2
  · have hdepths : (b.number e keep).depths = b.depths := by rw [hnumber]
    rw [number_ring, hdepths]
    cases keep with
    | false =>
      rw [if_neg fun hc => Bool.false_ne_true hc.1, h.ring, keptEvents, keptEvents, filter_append]
      congr 1
      rw [map_append]
      exact (append_nil _).symm
    | true =>
      have hkept : keptEvents (log ++ [⟨b.stamped e, true⟩]) = keptEvents log ++ [b.stamped e] := by
        rw [keptEvents, filter_append, map_append]
        rfl
      rw [hkept]
      by_cases hcap : 0 < b.depths.ringCap
      · rw [if_pos ⟨rfl, hcap⟩, h.ring, rtake_snoc]
      · have hzero : b.depths.ringCap = 0 := by omega
        rw [if_neg fun hc => hcap hc.2, h.ring, hzero, rtake_zero, rtake_zero]

end

section

def System.feed (s : System) : List Event :=
  s.client.received ++ match s.client.current with
    | some k => (s.process.channel k).queue
    | none => []

def System.wanted (s : System) (e : Event) : Prop :=
  e ∈ keptEvents s.log ∧ s.client.wants e = true

structure Tracking (s : System) : Prop where
  recorded : Recorded s.process.bus s.log
  numbered : ∀ e ∈ s.feed, 1 ≤ e.id ∧ e.id ≤ s.process.bus.seq
  current : ∀ k, s.client.current = some k → k ≤ s.process.bus.nextID
  gapless : s.client.told = false → Gapless Event.id s.wanted s.feed
  filter : ∀ k, s.client.current = some k → ∀ t ∈ s.process.bus.subs, t.id = k →
    t.filter = s.client.wants
  live : s.client.told = false → ∀ k, s.client.current = some k →
    (∃ t ∈ s.process.bus.subs, t.id = k) → UpToDate Event.id s.wanted s.feed

variable {s : System} {q : Process}

theorem tracking_quiet (h : Tracking s)
    (hrecorded : Recorded q.bus s.log) (hseq : q.bus.seq = s.process.bus.seq)
    (hnext : s.process.bus.nextID ≤ q.bus.nextID)
    (hfeed : ∀ k, s.client.current = some k → (q.channel k).queue = (s.process.channel k).queue ∧
      ∀ t ∈ q.bus.subs, t.id = k → t ∈ s.process.bus.subs) :
    Tracking { s with process := q } := by
  have hsame : ({ s with process := q } : System).feed = s.feed := by
    unfold System.feed
    cases hc : s.client.current with
    | none => rfl
    | some k =>
      dsimp only
      rw [(hfeed k hc).1]
  refine ⟨hrecorded, ?_, fun k hk => Nat.le_trans (h.current k hk) hnext, ?_, ?_, ?_⟩
  · rw [hsame, hseq]
    exact h.numbered
  · intro htold
    rw [hsame]
    exact h.gapless htold
  · intro k hk t ht hid
    exact h.filter k hk t ((hfeed k hk).2 t ht hid) hid
  rintro htold k hk ⟨t, ht, hid⟩
  rw [hsame]
  exact h.live htold k hk ⟨t, (hfeed k hk).2 t ht hid, hid⟩

theorem wanted_publish {e w : Event} {keep : Bool}
    (hw : System.wanted { s with process := q, log := s.log ++ [⟨s.process.bus.stamped e, keep⟩] } w) :
    s.wanted w ∨ w = s.process.bus.stamped e := by
  obtain ⟨hmem, hwants⟩ := hw
  obtain ⟨x, hx, hk, rfl⟩ := mem_kept hmem
  rcases mem_append.mp hx with hx | hx
  · exact .inl ⟨mem_map.mpr ⟨x, mem_filter.mpr ⟨hx, hk⟩, rfl⟩, hwants⟩
  · rw [mem_singleton.mp hx]
    exact .inr rfl

variable {e : Event}

/-- A client stays up to date while an event is published. -/
theorem tracking_publish {keep : Bool} (h : Tracking s) (hsound : Sound s.process)
    (hq : publish e keep s.process = .ok q) :
    Tracking { s with process := q, log := s.log ++ [⟨s.process.bus.stamped e, keep⟩] } := by
  obtain ⟨q', hq', hbus, -, hsub, hafter⟩ := publish_ok hsound
  rw [hq, Except.ok.injEq] at hq'
  subst hq'
  set s' : System :=
    { s with process := q, log := s.log ++ [⟨s.process.bus.stamped e, keep⟩] } with hs'
  have hnumber := number_eq s.process.bus e keep
  have hseq : q.bus.seq = s.process.bus.seq + 1 := by rw [hbus, hnumber]
  have hnext : q.bus.nextID = s.process.bus.nextID := by rw [hbus, hnumber]
  have hrec : Recorded q.bus s'.log := by
    rw [hbus]
    obtain ⟨h1, h2, h3⟩ := recorded_publish h.recorded
    exact ⟨h1, h2, h3⟩
  have hid : (s.process.bus.stamped e).id = s.process.bus.seq + 1 := rfl
  have hbelow : ∀ a ∈ s.feed, a.id < (s.process.bus.stamped e).id := fun a ha =>
    Nat.lt_succ_of_le (h.numbered a ha).2
  have hold : ∀ w, s.wanted w → w.id < (s.process.bus.stamped e).id := fun w hw =>
    Nat.lt_succ_of_le (kept_numbered _ h.recorded hw.1).2
  have hfilter : ∀ k, s.client.current = some k → ∀ t ∈ q.bus.subs, t.id = k →
      t.filter = s.client.wants := fun k hk t ht => h.filter k hk t (hsub.subset ht)
  -- the feed is as before, or has the new event at its end
  have hcase : (s'.feed = s.feed ∧ (∀ k, s.client.current = some k → ∀ t ∈ q.bus.subs, t.id = k →
        t.filter (s.process.bus.stamped e) = false)) ∨
      (s'.feed = s.feed ++ [s.process.bus.stamped e] ∧
        (s.client.told = false → UpToDate Event.id s.wanted s.feed)) := by
    cases hc : s.client.current with
    | none =>
      refine .inl ⟨?_, fun k hk => nomatch hk⟩
      simp only [System.feed, hs', hc]
    | some k =>
      cases hafter k with
      | queued t ht hid hf hqueue _ =>
        refine .inr ⟨?_, fun htold => h.live htold k hc ⟨t, ht, hid⟩⟩
        simp [System.feed, hs', hc, hqueue]
      | passed hqueue hf _ =>
        refine .inl ⟨?_, fun i hi t ht hid => ?_⟩
        · simp only [System.feed, hs', hc, hqueue]
        · rw [Option.some.injEq] at hi
          exact hf t ht (hid.trans hi.symm)
  rcases hcase with ⟨hfeed, hf⟩ | ⟨hfeed, hup⟩
  · refine ⟨hrec, ?_, fun k hk => (h.current k hk).trans (le_of_eq hnext.symm), ?_, hfilter, ?_⟩
    · intro a ha
      rw [hfeed] at ha
      obtain ⟨h1, h2⟩ := h.numbered a ha
      rw [show s'.process.bus.seq = s.process.bus.seq + 1 from hseq]
      exact ⟨h1, Nat.le_succ_of_le h2⟩
    · intro htold
      rw [hfeed]
      refine (h.gapless htold).grow _ _ fun w hw => ?_
      rcases wanted_publish hw with hw | rfl
      · exact .inl hw
      · exact .inr hbelow
    rintro htold k hk ⟨t, ht, hid⟩
    rw [hfeed]
    refine (h.live htold k hk ⟨t, hsub.subset ht, hid⟩).grow _ _ fun w hw => ?_
    rcases wanted_publish hw with hw' | rfl
    · exact hw'
    have hno := hf k hk t ht hid
    rw [hfilter k hk t ht hid] at hno
    exact absurd hw.2 (by rw [show s'.client.wants _ = false from hno]; exact Bool.false_ne_true)
  · have hup' : s.client.told = false → UpToDate Event.id s'.wanted s'.feed := by
      intro htold
      rw [hfeed]
      exact (hup htold).snoc hbelow (fun w hw => wanted_publish hw) hold
    refine ⟨hrec, ?_, fun k hk => (h.current k hk).trans (le_of_eq hnext.symm),
      fun htold => (hup' htold).gapless, hfilter, fun htold k _ _ => hup' htold⟩
    intro a ha
    rw [hfeed] at ha
    rw [show s'.process.bus.seq = s.process.bus.seq + 1 from hseq]
    rcases mem_append.mp ha with ha | ha
    · obtain ⟨h1, h2⟩ := h.numbered a ha
      exact ⟨h1, Nat.le_succ_of_le h2⟩
    · rw [mem_singleton.mp ha, hid]
      exact ⟨Nat.le_add_left 1 _, Nat.le_refl _⟩

theorem tracking_subscribe {opts : SubscribeOptions} (h : Tracking s) :
    Tracking { s with process := s.process.joined opts } := by
  refine tracking_quiet h
    ⟨h.recorded.numbered, h.recorded.rising, h.recorded.ring⟩ rfl (Nat.le_succ _) ?_
  intro k hk
  have hle := h.current k hk
  constructor
  · exact congrArg Channel.queue (if_neg (by omega))
  intro t ht hid
  rcases mem_append.mp ht with ht | ht
  · exact ht
  rw [mem_singleton.mp ht] at hid
  have hnew : s.process.bus.nextID + 1 = k := hid
  omega

variable {k : Nat}

theorem tracking_close (h : Tracking s) (heffect : CloseEffect k s.process q) :
    Tracking { s with process := q } := by
  cases heffect with
  | kept hbus hchan =>
    refine tracking_quiet h (by rw [hbus]; exact h.recorded) (by rw [hbus])
      (by rw [hbus]) fun i _ => ?_
    rw [hbus, hchan]
    exact ⟨rfl, fun t ht _ => ht⟩
  | ended hbus hchan =>
    refine tracking_quiet h
      (by rw [hbus]; exact ⟨h.recorded.numbered, h.recorded.rising, h.recorded.ring⟩)
      (by rw [hbus]; rfl) (by rw [hbus]; exact Nat.le_refl _) fun i _ => ?_
    rw [hbus, hchan]
    constructor
    · by_cases hi : i = k
      · rw [hi, setChannel_self]
      · rw [setChannel_other hi]
    · exact fun t ht _ => (mem_filter.mp ht).1

theorem tracking_receive (h : Tracking s) (hcur : s.client.current = some k) : Tracking { s with
      process := s.process.setChannel k (s.process.channel k).receive.2
      client := s.client.take (s.process.channel k).receive.1 } := by
  set s' : System := { s with
    process := s.process.setChannel k (s.process.channel k).receive.2
    client := s.client.take (s.process.channel k).receive.1 } with hs'
  have hfeed : s'.feed = s.feed := by
    have hcur' : s'.client.current = some k := hcur
    have hqueue : (s'.process.channel k).queue = (s.process.channel k).queue.tail :=
      congrArg Channel.queue setChannel_self
    have hreceived : s'.client.received =
        s.client.received ++ (s.process.channel k).queue.head?.toList := rfl
    rw [System.feed, System.feed, hcur, hcur']
    dsimp only
    rw [hqueue, hreceived, append_assoc]
    congr 1
    cases (s.process.channel k).queue with
    | nil => rfl
    | cons x rest => rfl
  refine ⟨h.recorded, ?_, h.current, ?_, h.filter, ?_⟩
  · rw [hfeed]
    exact h.numbered
  · intro htold
    rw [hfeed]
    exact h.gapless htold
  intro htold i hi hlive
  rw [hfeed]
  exact h.live htold i hi hlive

theorem tracking_receive_other (h : Tracking s) (hcur : s.client.current ≠ some k) :
    Tracking { s with process := s.process.setChannel k (s.process.channel k).receive.2 } := by
  refine tracking_quiet h h.recorded rfl (Nat.le_refl _) fun i hi => ⟨?_, fun t ht _ => ht⟩
  rw [setChannel_other]
  rintro rfl
  exact hcur hi

theorem tracking_refused (h : Tracking s) :
    Tracking { s with client := { s.client with current := none } } := by
  have hfeed : System.feed { s with client := { s.client with current := none } } =
      s.client.received := append_nil _
  refine ⟨h.recorded, ?_, (fun k hk => nomatch hk), ?_, (fun k hk => nomatch hk),
    (fun _ k hk => nomatch hk)⟩
  · rw [hfeed]
    exact fun e he => h.numbered e (mem_append_left _ he)
  intro htold
  rw [hfeed]
  exact (h.gapless htold).left

section
variable {replay : Nat} {incomplete : Bool} {className : String} {classLimit : Int}

def Client.resumed (c : Client) (sub : Subscription) : Client :=
  { c with
    current := some sub.id
    told := c.told || (!c.received.isEmpty && !sub.complete) }

variable {opts : SubscribeOptions}

theorem missed_filter {b : Bus} (hpos : 0 < opts.replay) :
    opts.missed b = replayLocked b opts.replay opts.matches := if_pos hpos

variable {b : Bus}

theorem missed_mem (he : e ∈ (opts.missed b).1) :
    e ∈ b.ring ∧ opts.replay < e.id ∧ opts.matches e = true := by
  unfold SubscribeOptions.missed at he
  by_cases hpos : 0 < opts.replay
  · rw [if_pos hpos] at he
    obtain ⟨hring, hcond⟩ := mem_filter.mp he
    rw [Bool.and_eq_true, decide_eq_true_eq] at hcond
    exact ⟨hring, hcond.1, hcond.2⟩
  · rw [if_neg hpos] at he
    cases he

variable {log : List Published}

theorem missed_rising (h : Recorded b log) : (opts.missed b).1.Pairwise fun a b => a.id < b.id := by
  unfold SubscribeOptions.missed
  split
  · exact (ring_rising h).filter _
  · exact List.Pairwise.nil

theorem mem_missed (hpos : 0 < opts.replay) (hring : e ∈ b.ring) (hlt : opts.replay < e.id)
    (hm : opts.matches e = true) : e ∈ (opts.missed b).1 := by
  rw [missed_filter hpos]
  refine mem_filter.mpr ⟨hring, ?_⟩
  rw [Bool.and_eq_true, decide_eq_true_eq]
  exact ⟨hlt, hm⟩

theorem upToDate_first (h : Recorded b log) :
    UpToDate Event.id (fun e => e ∈ keptEvents log ∧ opts.matches e = true) (opts.missed b).1 := by
  refine ⟨missed_rising h, fun a ha w hw hle => ?_⟩
  obtain ⟨hring, hlt, -⟩ := missed_mem ha
  have hpos : 0 < opts.replay := by
    by_contra hzero
    rw [SubscribeOptions.missed, if_neg hzero] at ha
    cases ha
  exact mem_missed hpos (ring_onward h hring hw.1 hle) (by omega) hw.2

theorem upToDate_resumed (h : Recorded b log) {received : List Event} {last : Event}
    (hgapless : Gapless Event.id (fun e => e ∈ keptEvents log ∧ opts.matches e = true) received)
    (hlast : received.getLast? = some last) (hreplay : opts.replay = last.id) (hpos : 1 ≤ last.id)
    (hcomplete : (opts.missed b).2 = true) :
    UpToDate Event.id (fun e => e ∈ keptEvents log ∧ opts.matches e = true)
      (received ++ (opts.missed b).1) := by
  have hpos' : 0 < opts.replay := by omega
  refine hgapless.resume hlast (missed_rising h) ?_ ?_
  · intro e he
    rw [← hreplay]
    exact (missed_mem he).2.1
  intro w hw hlt
  rw [← hreplay] at hlt
  rw [missed_filter hpos'] at hcomplete
  have hring := replay_covers h hpos' hcomplete hw.1 hlt
  exact mem_missed hpos' hring hlt hw.2

/-- A client that comes back is caught up by the replay. -/
theorem tracking_connect (h : Tracking s) (hsound : Sound s.process)
    (hopts : opts = s.client.options replay incomplete className classLimit) : Tracking { s with
      process := s.process.joined opts
      client := s.client.resumed (opts.handle s.process.bus) } := by
  set b := s.process.bus with hb
  set s' : System := { s with
    process := s.process.joined opts
    client := s.client.resumed (opts.handle b) } with hs'
  have hwants : opts.matches = s.client.wants := by
    rw [hopts]
    rfl
  have hwanted : s'.wanted = fun e => e ∈ keptEvents s.log ∧ opts.matches e = true := by
    rw [hwants]
    rfl
  have hfeed : s'.feed = s.client.received ++ (opts.missed b).1 :=
    congrArg (s.client.received ++ ·) (congrArg Channel.queue (if_pos rfl))
  have hreceived : ∀ e ∈ s.client.received, e ∈ s.feed := fun e he => mem_append_left _ he
  have hup : s'.client.told = false → UpToDate Event.id s'.wanted s'.feed := by
    intro htold
    obtain ⟨hold, hnow⟩ := Bool.or_eq_false_iff.mp (show (s.client.told || _) = false from htold)
    rw [hwanted, hfeed]
    cases hlast : s.client.received.getLast? with
    | none =>
      rw [getLast?_eq_none_iff.mp hlast, nil_append]
      exact upToDate_first h.recorded
    | some last =>
      have hne : s.client.received ≠ [] := by
        intro hnil
        rw [hnil] at hlast
        cases hlast
      have hcomplete : (opts.handle b).complete = true := by
        rw [Bool.and_eq_false_iff, Bool.not_eq_false', Bool.not_eq_false'] at hnow
        rcases hnow with hempty | hc
        · exact absurd (isEmpty_iff.mp hempty) hne
        · exact hc
      have hreplay : opts.replay = last.id := by
        rw [hopts]
        dsimp only [Client.options]
        rw [hlast]
      have hgapless : Gapless Event.id s.wanted s.client.received := (h.gapless hold).left
      have hsame : s.wanted = fun e => e ∈ keptEvents s.log ∧ opts.matches e = true := by
        rw [hwants]
        rfl
      rw [hsame] at hgapless
      exact upToDate_resumed h.recorded hgapless hlast hreplay
        (h.numbered last (hreceived last (mem_of_getLast? hlast))).1
        (Bool.and_eq_true_iff.mp hcomplete).1
  refine ⟨⟨h.recorded.numbered, h.recorded.rising, h.recorded.ring⟩, ?_, ?_,
    fun htold => (hup htold).gapless, ?_, fun htold _ _ _ => hup htold⟩
  · intro e he
    rw [hfeed] at he
    rcases mem_append.mp he with he | he
    · exact h.numbered e (hreceived e he)
    · exact kept_numbered b h.recorded (ring_subset h.recorded (missed_mem he).1)
  · intro k hk
    exact Nat.le_of_eq (Option.some.inj hk).symm
  intro k hk t ht hid
  have hk' : b.nextID + 1 = k := Option.some.inj hk
  rcases mem_append.mp ht with ht | ht
  · have hle : t.id ≤ b.nextID := hsound.below t ht
    omega
  · rw [mem_singleton.mp ht]
    exact hwants

end

end

end Zoomies.Events
