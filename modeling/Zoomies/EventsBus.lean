import Zoomies.BoundedChannel
import Zoomies.GoFormat
import Zoomies.RowTable
import Mathlib.Data.List.DropRight
import Mathlib.Data.List.Nodup

/-! The publish/subscribe bus of `internal/events`. Every operation runs under the bus's lock, so
each is one step. -/
namespace Zoomies.Events
open Zoomies.Go List

inductive Kind
  | runnerCreated
  | runnerUpdated
  | runnerDeleted
  | poolCreated
  | poolUpdated
  | poolDeleted
  | jobUpdated
  | hostUpdated
  | hostDeleted
  | scaling
  | installation
  | installationDeleted
  | providerUpdated
  | providerDeleted
  | machineUpdated
  | machineDeleted
  | kennelUpdated
  | kennelDeleted
  | kennelSummary
  | problems
  | stats
  | audit
  | webhook
  | updates
  | transfer
  | controllerMachine
  | heartbeat
  | resync
  | other (text : String)
  deriving DecidableEq

structure Event where
  id : Nat := 0
  kind : Kind
  topic : String := ""
  data : Option String := none
  time : Time := 0
  deriving DecidableEq

abbrev Payload := Except String String

def frame (kind : Kind) (topic : String) (v : Option Payload) (now : Time) : Option Event :=
  match v with
  | none => some { kind := kind, topic := topic, time := now }
  | some (.ok raw) => some { kind := kind, topic := topic, data := some raw, time := now }
  | some (.error _) => none

structure SubscribeOptions where
  kinds : List Kind := []
  topicPrefix : String := ""
  replay : Nat := 0
  incomplete : Bool := false
  className : String := ""
  classLimit : Int := 0

def SubscribeOptions.matches (o : SubscribeOptions) (e : Event) : Bool :=
  (o.kinds.isEmpty || o.kinds.contains e.kind) &&
    (o.topicPrefix == "" || o.topicPrefix.toList.isPrefixOf e.topic.toList)

structure Subscriber where
  id : Nat
  filter : Event → Bool
  className : String
  kinds : List Kind

structure Depths where
  buffer : Nat := 512
  ringCap : Nat := 256
  deeper : ringCap < buffer := by decide

structure Bus where
  depths : Depths := {}
  subs : List Subscriber := []
  nextID : Nat := 0
  seq : Nat := 0
  ring : List Event := []

inductive Closing
  | no
  | unsubscribed
  | yes
  deriving DecidableEq

structure Subscription where
  id : Nat
  complete : Bool
  done : Channel Unit := {}
  once : Closing := .no

structure Process where
  bus : Bus := {}
  channel : Nat → Channel Event := fun _ => {}
  handed : List Subscription := []

def Process.setChannel (p : Process) (k : Nat) (c : Channel Event) : Process :=
  { p with channel := fun i => if i = k then c else p.channel i }

def Process.drop (p : Process) (k : Nat) : Process :=
  { p with bus := { p.bus with subs := p.bus.subs.filter fun s => s.id ≠ k } }

def deliver (e : Event) (p : Process) (s : Subscriber) : Except ChannelPanic Process :=
  if s.filter e = false then .ok p
  else
    match (p.channel s.id).trySend p.bus.depths.buffer e with
    | .error x => .error x
    | .ok (true, c) => .ok (p.setChannel s.id c)
    | .ok (false, c) =>
      match c.close with
      | .error x => .error x
      | .ok c => .ok ((p.drop s.id).setChannel s.id c)

def Bus.keep (b : Bus) (e : Event) : Bus :=
  if 0 < b.depths.ringCap then
    let ring := b.ring ++ [e]
    { b with ring := if ring.length > b.depths.ringCap
      then ring.drop (ring.length - b.depths.ringCap) else ring }
  else b

def Bus.stamped (b : Bus) (e : Event) : Event := { e with id := b.seq + 1 }

def Bus.number (b : Bus) (e : Event) (keep : Bool) : Bus :=
  let b' := { b with seq := b.seq + 1 }
  if keep then b'.keep (b.stamped e) else b'

def publish (e : Event) (keep : Bool) (p : Process) : Except ChannelPanic Process :=
  p.bus.subs.foldlM (deliver (p.bus.stamped e)) { p with bus := p.bus.number e keep }

def replayLocked (b : Bus) (since : Nat) (filter : Event → Bool) : List Event × Bool :=
  let complete :=
    if 0 < since then
      if since > b.seq then false
      else if since = b.seq then true
      else match b.ring.head? with
        | none => false
        | some oldest => decide (oldest.id ≤ since + 1)
    else true
  (b.ring.filter fun e => decide (e.id > since) && filter e, complete)

def recent (since : Nat) (opts : SubscribeOptions) (limit : Int) (b : Bus) :
    List Event × Bool × Bool :=
  let r := replayLocked b since opts.matches
  if limit > 0 ∧ r.1.length > limit.toNat then (r.1.take limit.toNat, r.2, true)
  else (r.1, r.2, false)

def countLocked (className : String) (b : Bus) : Nat :=
  b.subs.countP fun s => s.className == className

def SubscribeOptions.ceiling (o : SubscribeOptions) (limit : Int) : Int :=
  if o.className ≠ "" then o.classLimit else limit

def SubscribeOptions.replayed (opts : SubscribeOptions) (b : Bus) :
    Except ChannelPanic (Bool × Channel Event) :=
  if 0 < opts.replay then
    let r := replayLocked b opts.replay opts.matches
    Channel.offerAll b.depths.buffer r.1 r.2 {}
  else .ok (true, {})

def subscribeWithin (opts : SubscribeOptions) (limit : Int) (p : Process) :
    Except ChannelPanic (Option Subscription × Process) :=
  if opts.ceiling limit > 0 ∧ (countLocked opts.className p.bus : Int) ≥ opts.ceiling limit then
    .ok (none, p)
  else
    let id := p.bus.nextID + 1
    let sub : Subscriber :=
      { id := id, filter := opts.matches, className := opts.className, kinds := opts.kinds }
    match opts.replayed p.bus with
    | .error x => .error x
    | .ok (all, c) =>
      let s : Subscription := { id := id, complete := all && !opts.incomplete }
      .ok (some s, { (p.setChannel id c) with
          bus := { p.bus with subs := p.bus.subs ++ [sub], nextID := id }
          handed := p.handed ++ [s] })

def unsubscribe (k : Nat) (p : Process) : Except ChannelPanic Process :=
  if p.bus.subs.any fun s => s.id == k then
    match (p.channel k).close with
    | .error x => .error x
    | .ok c => .ok ((p.drop k).setChannel k c)
  else .ok p

def Subscription.setOnce (o : Closing) (s : Subscription) : Subscription := { s with once := o }

def Subscription.finished (c : Channel Unit) (s : Subscription) : Subscription :=
  { s with done := c, once := .yes }

def beginClose (k : Nat) (p : Process) : Except ChannelPanic Process :=
  match rowAt (·.id) k p.handed with
  | none => .ok p
  | some s =>
    if s.once = .no then
      unsubscribe k { p with handed := setAt (·.id) k (Subscription.setOnce .unsubscribed) p.handed }
    else .ok p

def finishClose (k : Nat) (p : Process) : Except ChannelPanic Process :=
  match rowAt (·.id) k p.handed with
  | none => .ok p
  | some s =>
    if s.once = .unsubscribed then
      match s.done.close with
      | .error x => .error x
      | .ok c => .ok { p with handed := setAt (·.id) k (Subscription.finished c) p.handed }
    else .ok p

def Process.turn (e : Event) (p : Process) (s : Subscriber) : Process :=
  if s.filter e = false then p
  else if (p.channel s.id).queue.length < p.bus.depths.buffer then
    p.setChannel s.id { p.channel s.id with queue := (p.channel s.id).queue ++ [e] }
  else (p.drop s.id).setChannel s.id { p.channel s.id with closed := true }

section
variable {e : Event} {p : Process} {s : Subscriber}

theorem deliver_open (h : (p.channel s.id).closed = false) : deliver e p s = .ok (p.turn e s) := by
  unfold deliver Process.turn
  by_cases hf : s.filter e = false
  · rw [if_pos hf, if_pos hf]
  rw [if_neg hf, if_neg hf, Channel.trySend_open _ h]
  by_cases hroom : (p.channel s.id).queue.length < p.bus.depths.buffer
  · rw [if_pos hroom, if_pos hroom]
  rw [if_neg hroom, if_neg hroom]
  dsimp only
  rw [Channel.close_open h]

theorem setChannel_self {k : Nat} {c : Channel Event} : (p.setChannel k c).channel k = c :=
  if_pos rfl

theorem setChannel_other {k i : Nat} {c : Channel Event} (h : i ≠ k) :
    (p.setChannel k c).channel i = p.channel i := if_neg h

theorem turn_channel_other {k : Nat} (h : k ≠ s.id) : (p.turn e s).channel k = p.channel k := by
  unfold Process.turn
  split
  · rfl
  split
  · exact setChannel_other h
  · exact setChannel_other h

theorem turn_subs : (p.turn e s).bus.subs =
    if s.filter e = false ∨ (p.channel s.id).queue.length < p.bus.depths.buffer then p.bus.subs
    else p.bus.subs.filter fun t => t.id ≠ s.id := by
  unfold Process.turn
  by_cases hf : s.filter e = false
  · rw [if_pos hf, if_pos (.inl hf)]
  rw [if_neg hf]
  by_cases hroom : (p.channel s.id).queue.length < p.bus.depths.buffer
  · rw [if_pos hroom, if_pos (.inr hroom)]
    rfl
  · rw [if_neg hroom, if_neg (by rintro (h | h) <;> contradiction)]
    rfl

theorem turn_sublist : (p.turn e s).bus.subs.Sublist p.bus.subs := by
  rw [turn_subs]
  split
  · exact List.Sublist.refl _
  · exact filter_sublist

theorem mem_turn_other {t : Subscriber} (h : t.id ≠ s.id) :
    t ∈ (p.turn e s).bus.subs ↔ t ∈ p.bus.subs := by
  rw [turn_subs]
  split
  · rfl
  · simp [h]

theorem turn_bus : (p.turn e s).bus = { p.bus with subs := (p.turn e s).bus.subs } := by
  unfold Process.turn
  split
  · rfl
  split
  · rfl
  · rfl

theorem turn_handed : (p.turn e s).handed = p.handed := by
  unfold Process.turn
  split
  · rfl
  split
  · rfl
  · rfl

end

def SameFeed (k : Nat) (p q : Process) : Prop :=
  q.channel k = p.channel k ∧ ∀ t : Subscriber, t.id = k → (t ∈ q.bus.subs ↔ t ∈ p.bus.subs)

theorem SameFeed.trans (k : Nat) (p q r : Process) (h : SameFeed k p q) (h' : SameFeed k q r) :
    SameFeed k p r :=
  ⟨h'.1.trans h.1, fun t ht => (h'.2 t ht).trans (h.2 t ht)⟩

theorem sameFeed_turn {e : Event} {p : Process} {s : Subscriber} {k : Nat} (h : k ≠ s.id) :
    SameFeed k p (p.turn e s) := by
  refine ⟨turn_channel_other h, fun t ht => mem_turn_other ?_⟩
  rw [ht]
  exact h

theorem sameFeed_turn_turn {e : Event} {p q : Process} {s : Subscriber} (h : SameFeed s.id p q)
    (hbuffer : q.bus.depths = p.bus.depths) : SameFeed s.id (p.turn e s) (q.turn e s) := by
  constructor
  · unfold Process.turn
    rw [h.1, hbuffer]
    split
    · exact h.1
    split
    · rw [setChannel_self, setChannel_self]
    · rw [setChannel_self, setChannel_self]
  · intro t ht
    rw [turn_subs, turn_subs, h.1, hbuffer]
    split
    · exact h.2 t ht
    · simp only [mem_filter, ht]
      simp

structure Delivered (e : Event) (l : List Subscriber) (p q : Process) : Prop where
  subs : q.bus.subs.Sublist p.bus.subs
  bus : q.bus = { p.bus with subs := q.bus.subs }
  handed : q.handed = p.handed
  turns : ∀ s ∈ l, SameFeed s.id (p.turn e s) q
  others : ∀ k, (∀ s ∈ l, s.id ≠ k) → SameFeed k p q

theorem deliver_all (e : Event) {l : List Subscriber} (p : Process)
    (hids : l.Pairwise fun s t => s.id ≠ t.id) (hopen : ∀ s ∈ l, (p.channel s.id).closed = false) :
    ∃ q, l.foldlM (deliver e) p = .ok q ∧ Delivered e l p q := by
  -- by induction on the subscribers whose turn is still to come
  induction l generalizing p with
  | nil =>
    refine ⟨p, rfl, List.Sublist.refl _, rfl, rfl, ?_, ?_⟩
    · intro s hs
      cases hs
    · intro k _
      exact ⟨rfl, fun t _ => Iff.rfl⟩
  | cons s rest ih =>
    obtain ⟨hs, hrest⟩ := pairwise_cons.mp hids
    have hstill : ∀ t ∈ rest, ((p.turn e s).channel t.id).closed = false := by
      intro t ht
      rw [turn_channel_other (hs t ht).symm]
      exact hopen t (mem_cons_of_mem _ ht)
    obtain ⟨q, hq, hd⟩ := ih (p.turn e s) hrest hstill
    have hdepths : (p.turn e s).bus.depths = p.bus.depths := by rw [turn_bus]
    refine ⟨q, ?_, hd.subs.trans turn_sublist, ?_, hd.handed.trans turn_handed, ?_, ?_⟩
    · rw [foldlM_cons, deliver_open (hopen s mem_cons_self)]
      exact hq
    · rw [hd.bus, turn_bus]
    · intro t ht
      rcases mem_cons.mp ht with rfl | ht
      · exact hd.others t.id fun u hu => (hs u hu).symm
      have hsame : SameFeed t.id p (p.turn e s) := sameFeed_turn (hs t ht).symm
      exact SameFeed.trans _ _ _ _ (sameFeed_turn_turn hsame hdepths) (hd.turns t ht)
    intro k hk
    have hne : k ≠ s.id := (hk s mem_cons_self).symm
    exact SameFeed.trans _ _ _ _ (sameFeed_turn hne)
      (hd.others k fun t ht => hk t (mem_cons_of_mem _ ht))

structure SoundHandles (last : Nat) (l : List Subscription) : Prop where
  ids : l.Pairwise fun s t => s.id ≠ t.id
  below : ∀ s ∈ l, s.id ≤ last
  done : ∀ s ∈ l, s.once ≠ .yes → s.done.closed = false

structure Sound (p : Process) : Prop where
  ids : p.bus.subs.Pairwise fun s t => s.id ≠ t.id
  below : ∀ s ∈ p.bus.subs, s.id ≤ p.bus.nextID
  opened : ∀ s ∈ p.bus.subs, (p.channel s.id).closed = false
  ring : p.bus.ring.length ≤ p.bus.depths.ringCap
  handles : SoundHandles p.bus.nextID p.handed

theorem Sound.init {d : Depths} : Sound { bus := { depths := d } } :=
  ⟨List.Pairwise.nil, (fun _ hs => nomatch hs), (fun _ hs => nomatch hs), Nat.zero_le _,
    ⟨List.Pairwise.nil, (fun _ hs => nomatch hs), (fun _ hs => nomatch hs)⟩⟩

theorem keep_eq {b : Bus} {e : Event} : b.keep e = { b with ring := (b.keep e).ring } := by
  unfold Bus.keep
  split
  · rfl
  · rfl

theorem number_eq (b : Bus) (e : Event) (keep : Bool) :
    b.number e keep = { b with seq := b.seq + 1, ring := (b.number e keep).ring } := by
  cases keep with
  | false => rfl
  | true => exact keep_eq

theorem number_ring (b : Bus) (e : Event) (keep : Bool) : (b.number e keep).ring =
    if keep = true ∧ 0 < b.depths.ringCap then
      (b.ring ++ [b.stamped e]).rtake b.depths.ringCap
    else b.ring := by
  unfold Bus.number Bus.keep
  cases keep with
  | false => rfl
  | true =>
    by_cases hcap : 0 < b.depths.ringCap
    · rw [if_pos rfl, if_pos hcap, if_pos ⟨rfl, hcap⟩]
      dsimp only
      by_cases hlong : (b.ring ++ [b.stamped e]).length > b.depths.ringCap
      · rw [if_pos hlong]
        rfl
      · rw [if_neg hlong, List.rtake, Nat.sub_eq_zero_of_le (by omega), drop_zero]
    · rw [if_pos rfl, if_neg hcap, if_neg fun h => hcap h.2]

theorem sub_unique {l : List Subscriber} (h : l.Pairwise fun s t => s.id ≠ t.id)
    {s t : Subscriber} (hs : s ∈ l) (ht : t ∈ l) (hid : s.id = t.id) : s = t :=
  inj_on_of_nodup_map (pairwise_map.mpr h) hs ht hid

theorem length_rtake_le {α : Type} {l : List α} {n : Nat} : (l.rtake n).length ≤ n := by
  rw [List.rtake, length_drop]
  omega

theorem number_ring_length {b : Bus} {e : Event} {keep : Bool}
    (h : b.ring.length ≤ b.depths.ringCap) : (b.number e keep).ring.length ≤ b.depths.ringCap := by
  rw [number_ring]
  split
  · exact length_rtake_le
  · exact h

section
variable (e : Event) {keep : Bool} (p : Process)

inductive FeedAfter (p q : Process) (k : Nat) : Prop
  | queued (s : Subscriber) (hs : s ∈ p.bus.subs) (hid : s.id = k)
      (hf : s.filter (p.bus.stamped e) = true)
      (hq : (q.channel k).queue = (p.channel k).queue ++ [p.bus.stamped e])
      (hc : (q.channel k).closed = (p.channel k).closed)
  | passed (hq : (q.channel k).queue = (p.channel k).queue)
      (hf : ∀ t ∈ q.bus.subs, t.id = k → t.filter (p.bus.stamped e) = false)
      (hc : ∀ t ∈ q.bus.subs, t.id = k → (q.channel k).closed = (p.channel k).closed)

variable {e p}

/-- Publishing never panics, and a subscriber that asked for the event has it or is dropped. -/
theorem publish_ok (h : Sound p) : ∃ q, publish e keep p = .ok q ∧
    q.bus = { p.bus.number e keep with subs := q.bus.subs } ∧ q.handed = p.handed ∧
    q.bus.subs.Sublist p.bus.subs ∧ ∀ k, FeedAfter e p q k := by
  obtain ⟨q, hq, hd⟩ := deliver_all (p.bus.stamped e)
    { p with bus := p.bus.number e keep } h.ids h.opened
  have hsub := hd.subs
  have hsubs : (p.bus.number e keep).subs = p.bus.subs := by rw [number_eq]
  have hdepths : (p.bus.number e keep).depths = p.bus.depths := by rw [number_eq]
  rw [hsubs] at hsub
  refine ⟨q, hq, hd.bus, hd.handed, hsub, fun k => ?_⟩
  by_cases hk : ∃ s ∈ p.bus.subs, s.id = k
  · obtain ⟨s, hs, rfl⟩ := hk
    obtain ⟨hchan, hmem⟩ := hd.turns s hs
    -- subscribers are told apart by their number
    have honly : ∀ t ∈ q.bus.subs, t.id = s.id → t = s := fun t ht hid =>
      sub_unique h.ids (hsub.subset ht) hs hid
    by_cases hf : s.filter (p.bus.stamped e) = false
    · have hturn : Process.turn (p.bus.stamped e) { p with bus := p.bus.number e keep } s =
          { p with bus := p.bus.number e keep } := if_pos hf
      rw [hturn] at hchan
      refine .passed (congrArg Channel.queue hchan) ?_ fun _ _ _ => congrArg Channel.closed hchan
      intro t ht hid
      rw [honly t ht hid]
      exact hf
    · by_cases hroom : (p.channel s.id).queue.length < p.bus.depths.buffer
      · have hturn : (Process.turn (p.bus.stamped e) { p with bus := p.bus.number e keep } s).channel
            s.id = { p.channel s.id with
              queue := (p.channel s.id).queue ++ [p.bus.stamped e] } := by
          rw [Process.turn, if_neg hf, hdepths, if_pos hroom, setChannel_self]
        rw [hturn] at hchan
        refine .queued s hs rfl (eq_true_of_ne_false hf) ?_ ?_
        · rw [hchan]
        · rw [hchan]
      · have hgone : ∀ t ∈ q.bus.subs, t.id ≠ s.id := by
          intro t ht hid
          have hturn := (hmem t hid).mp ht
          rw [turn_subs, hdepths, if_neg (by rintro (hc | hc) <;> contradiction)] at hturn
          have hne := (mem_filter.mp hturn).2
          rw [decide_eq_true_eq] at hne
          exact hne hid
        have hturn : (Process.turn (p.bus.stamped e) { p with bus := p.bus.number e keep } s).channel
            s.id = { p.channel s.id with closed := true } := by
          rw [Process.turn, if_neg hf, hdepths, if_neg hroom, setChannel_self]
        rw [hturn] at hchan
        refine .passed ?_ (fun t ht hid => absurd hid (hgone t ht))
          (fun t ht hid => absurd hid (hgone t ht))
        rw [hchan]
  · have hnone : ∀ s ∈ p.bus.subs, s.id ≠ k := fun s hs hid => hk ⟨s, hs, hid⟩
    obtain ⟨hchan, -⟩ := hd.others k hnone
    refine .passed (congrArg Channel.queue hchan) ?_ ?_
    · exact fun t ht hid => absurd hid (hnone t (hsub.subset ht))
    · exact fun t ht hid => absurd hid (hnone t (hsub.subset ht))

theorem sound_publish {q : Process} (h : Sound p) (hq : publish e keep p = .ok q) : Sound q := by
  obtain ⟨q', hq', hbus, hhanded, hsub, hfeed⟩ := publish_ok h
  rw [hq, Except.ok.injEq] at hq'
  subst hq'
  have hnumber := number_eq p.bus e keep
  refine ⟨h.ids.sublist hsub, ?_, ?_, ?_, ?_⟩
  · intro s hs
    rw [hbus, hnumber]
    exact h.below s (hsub.subset hs)
  · intro s hs
    have hold := h.opened s (hsub.subset hs)
    cases hfeed s.id with
    | queued _ _ _ _ _ hc => exact hc.trans hold
    | passed _ _ hc => exact (hc s hs rfl).trans hold
  · rw [hbus]
    have hdepths : (p.bus.number e keep).depths = p.bus.depths := by rw [hnumber]
    rw [hdepths]
    exact number_ring_length h.ring
  · rw [hhanded, hbus, hnumber]
    exact h.handles

end

section
variable (opts : SubscribeOptions) (limit : Int) (p : Process)

def SubscribeOptions.missed (opts : SubscribeOptions) (b : Bus) : List Event × Bool :=
  if 0 < opts.replay then replayLocked b opts.replay opts.matches else ([], true)

theorem replayed_eq (h : p.bus.ring.length ≤ p.bus.depths.ringCap) :
    opts.replayed p.bus = .ok ((opts.missed p.bus).2, { queue := (opts.missed p.bus).1 }) := by
  unfold SubscribeOptions.replayed SubscribeOptions.missed
  by_cases hr : 0 < opts.replay
  · rw [if_pos hr, if_pos hr]
    have hlen : (replayLocked p.bus opts.replay opts.matches).1.length ≤ p.bus.ring.length :=
      length_filter_le _ _
    have hdeeper := p.bus.depths.deeper
    have hfits : (replayLocked p.bus opts.replay opts.matches).1.length ≤ p.bus.depths.buffer := by
      omega
    rw [Channel.offerAll_open _ _ _ rfl (Nat.zero_le _)]
    rw [length_nil, Nat.zero_add, decide_eq_true hfits, Bool.and_true, Nat.sub_zero,
      take_of_length_le hfits, nil_append]
  · rw [if_neg hr, if_neg hr]

def SubscribeOptions.subscriber (opts : SubscribeOptions) (b : Bus) : Subscriber :=
  { id := b.nextID + 1, filter := opts.matches, className := opts.className, kinds := opts.kinds }

def SubscribeOptions.handle (opts : SubscribeOptions) (b : Bus) : Subscription :=
  { id := b.nextID + 1, complete := (opts.missed b).2 && !opts.incomplete }

def SubscribeOptions.refused (opts : SubscribeOptions) (limit : Int) (b : Bus) : Prop :=
  opts.ceiling limit > 0 ∧ (countLocked opts.className b : Int) ≥ opts.ceiling limit

def Process.joined (p : Process) (opts : SubscribeOptions) : Process :=
  { p.setChannel (p.bus.nextID + 1) { queue := (opts.missed p.bus).1 } with
    bus := { p.bus with subs := p.bus.subs ++ [opts.subscriber p.bus], nextID := p.bus.nextID + 1 }
    handed := p.handed ++ [opts.handle p.bus] }

variable {opts p limit}

theorem subscribeWithin_ok (h : Sound p) :
    (opts.refused limit p.bus ∧ subscribeWithin opts limit p = .ok (none, p)) ∨
      (¬opts.refused limit p.bus ∧
        subscribeWithin opts limit p = .ok (some (opts.handle p.bus), p.joined opts)) := by
  by_cases hr : opts.refused limit p.bus
  · exact .inl ⟨hr, if_pos hr⟩
  refine .inr ⟨hr, ?_⟩
  refine (if_neg hr).trans ?_
  rw [replayed_eq opts p h.ring]
  rfl

theorem sound_joined (h : Sound p) : Sound (p.joined opts) := by
  have hfresh : ∀ s ∈ p.bus.subs, s.id ≠ p.bus.nextID + 1 := by
    intro s hs
    have hle := h.below s hs
    omega
  refine ⟨?_, ?_, ?_, h.ring, ?_⟩
  · refine pairwise_append.mpr ⟨h.ids, pairwise_singleton _ _, ?_⟩
    intro s hs t ht
    rw [mem_singleton.mp ht]
    exact hfresh s hs
  · intro s hs
    rcases mem_append.mp hs with hs | hs
    · exact Nat.le_succ_of_le (h.below s hs)
    · rw [mem_singleton.mp hs]
      exact Nat.le_refl _
  · intro s hs
    rcases mem_append.mp hs with hs | hs
    · exact (congrArg Channel.closed (if_neg (hfresh s hs))).trans (h.opened s hs)
    · rw [mem_singleton.mp hs]
      exact congrArg Channel.closed (if_pos rfl)
  refine ⟨pairwise_append.mpr ⟨h.handles.ids, pairwise_singleton _ _, ?_⟩, ?_, ?_⟩
  · intro x hx y hy
    have hle := h.handles.below x hx
    rw [mem_singleton.mp hy]
    exact Nat.ne_of_lt (Nat.lt_succ_of_le hle)
  · intro x hx
    rcases mem_append.mp hx with hx | hx
    · exact Nat.le_succ_of_le (h.handles.below x hx)
    · rw [mem_singleton.mp hx]
      exact Nat.le_refl _
  intro x hx hne
  rcases mem_append.mp hx with hx | hx
  · exact h.handles.done x hx hne
  · rw [mem_singleton.mp hx]
    rfl

end

section
variable (k : Nat) (p : Process)

inductive CloseEffect (k : Nat) (p q : Process) : Prop
  | kept (hbus : q.bus = p.bus) (hchan : q.channel = p.channel)
  | ended (hbus : q.bus = (p.drop k).bus)
      (hchan : q.channel = (p.setChannel k { p.channel k with closed := true }).channel)

variable {k p}

theorem soundHandles_set {last : Nat} {l : List Subscription} {s : Subscription}
    (f : Subscription → Subscription) (h : SoundHandles last l) (hs : rowAt (·.id) k l = some s)
    (hid : ∀ x, (f x).id = x.id) (hf : (f s).once ≠ .yes → (f s).done.closed = false) :
    SoundHandles last (setAt (·.id) k f l) := by
  have hkey : ∀ x : Subscription, (if x.id = k then f x else x).id = x.id := by
    intro x
    split
    · exact hid x
    · rfl
  refine ⟨?_, ?_, ?_⟩
  · refine pairwise_map.mpr (h.ids.imp fun hne => ?_)
    rw [hkey, hkey]
    exact hne
  · intro x hx
    obtain ⟨y, hy, rfl⟩ := mem_map.mp hx
    rw [hkey]
    exact h.below y hy
  intro x hx
  obtain ⟨y, hy, rfl⟩ := mem_map.mp hx
  by_cases hk : y.id = k
  · -- the subscription that was found is the only one with this number
    have hys : y = s := inj_on_of_nodup_map (pairwise_map.mpr h.ids) hy
      (mem_of_rowAt hs) (hk.trans (key_of_rowAt s hs).symm)
    rw [if_pos hk, hys]
    exact hf
  · rw [if_neg hk]
    exact h.done y hy

theorem sound_drop (h : Sound p) {c : Channel Event} : Sound ((p.drop k).setChannel k c) := by
  have hmem : ∀ s ∈ (p.drop k).bus.subs, s ∈ p.bus.subs ∧ s.id ≠ k := by
    intro s hs
    obtain ⟨hs, hne⟩ := mem_filter.mp hs
    exact ⟨hs, of_decide_eq_true hne⟩
  refine ⟨h.ids.filter _, fun s hs => h.below s (hmem s hs).1, ?_, h.ring, h.handles⟩
  intro s hs
  rw [setChannel_other (hmem s hs).2]
  exact h.opened s (hmem s hs).1

theorem unsubscribe_ok (h : Sound p) :
    ∃ q, unsubscribe k p = .ok q ∧ Sound q ∧ CloseEffect k p q := by
  rw [unsubscribe]
  by_cases hin : (p.bus.subs.any fun s => s.id == k) = true
  · obtain ⟨s, hs, hid⟩ := any_eq_true.mp hin
    have hopen := h.opened s hs
    rw [beq_iff_eq.mp hid] at hopen
    rw [if_pos hin, Channel.close_open hopen]
    exact ⟨_, rfl, sound_drop h, .ended rfl rfl⟩
  · rw [if_neg hin]
    exact ⟨p, rfl, h, .kept rfl rfl⟩

theorem sound_handed {l : List Subscription} (h : Sound p) (hl : SoundHandles p.bus.nextID l) :
    Sound { p with handed := l } :=
  ⟨h.ids, h.below, h.opened, h.ring, hl⟩

theorem beginClose_ok (h : Sound p) :
    ∃ q, beginClose k p = .ok q ∧ Sound q ∧ CloseEffect k p q := by
  rw [beginClose]
  cases hrow : rowAt (·.id) k p.handed with
  | none => exact ⟨p, rfl, h, .kept rfl rfl⟩
  | some s =>
    dsimp only
    by_cases hno : s.once = .no
    · rw [if_pos hno]
      have hopen : s.done.closed = false := by
        apply h.handles.done s (mem_of_rowAt hrow)
        rw [hno]
        exact Closing.noConfusion
      have hmarked := soundHandles_set (Subscription.setOnce .unsubscribed) h.handles hrow
        (fun _ => rfl) fun _ => hopen
      obtain ⟨q, hq, hsound, heffect⟩ := unsubscribe_ok (sound_handed h hmarked)
      refine ⟨q, hq, hsound, ?_⟩
      cases heffect with
      | kept hbus hchan => exact .kept hbus hchan
      | ended hbus hchan => exact .ended hbus hchan
    · rw [if_neg hno]
      exact ⟨p, rfl, h, .kept rfl rfl⟩

theorem finishClose_ok (h : Sound p) :
    ∃ q, finishClose k p = .ok q ∧ Sound q ∧ q.bus = p.bus ∧ q.channel = p.channel := by
  rw [finishClose]
  cases hrow : rowAt (·.id) k p.handed with
  | none => exact ⟨p, rfl, h, rfl, rfl⟩
  | some s =>
    dsimp only
    by_cases hun : s.once = .unsubscribed
    · have hopen : s.done.closed = false := by
        apply h.handles.done s (mem_of_rowAt hrow)
        rw [hun]
        exact Closing.noConfusion
      rw [if_pos hun, Channel.close_open hopen]
      have hmarked := soundHandles_set (Subscription.finished { s.done with closed := true })
        h.handles hrow (fun _ => rfl) fun hne => absurd rfl hne
      exact ⟨_, rfl, sound_handed h hmarked, rfl, rfl⟩
    · rw [if_neg hun]
      exact ⟨p, rfl, h, rfl, rfl⟩

theorem sound_receive (h : Sound p) : Sound (p.setChannel k (p.channel k).receive.2) := by
  refine ⟨h.ids, h.below, fun s hs => ?_, h.ring, h.handles⟩
  by_cases hk : s.id = k
  · have hopen := h.opened s hs
    rw [hk] at hopen ⊢
    rw [setChannel_self]
    exact hopen
  · rw [setChannel_other hk]
    exact h.opened s hs

end

end Zoomies.Events
