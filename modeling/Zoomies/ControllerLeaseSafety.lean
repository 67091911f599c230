import Zoomies.StoreLease
import Zoomies.LeaseProtocol

/-! Controllers that share one database: each keeps the lease by a loop and judges by its own
reading whether it may act. -/
namespace Zoomies.Controller
open Zoomies.Go Zoomies.Store List

def leaseTTL : Duration := 90 * second

structure LeaseParty where
  lease : Option ControllerLease := none
  leaseRenewed : Option Time := none
  leaseLost : Option ControllerLease := none
  reading : Option Time := none
  answer : Option (Time × Option ControllerLease × Option StoreError) := none

def mayAct (now : Time) (p : LeaseParty) : Bool :=
  if p.leaseLost.isSome then false
  else
    match p.lease with
    | none => true
    | some l =>
      let renewed := p.leaseRenewed.getD l.renewedAt
      renewed != 0 && decide (now < renewed + leaseTTL)

structure LeaseSystem where
  now : Time
  row : Option LeaseRow := none
  party : String → LeaseParty := fun _ => {}

variable (s : LeaseSystem) (holder : String) (p : LeaseParty)

def LeaseSystem.withParty : LeaseSystem :=
  { s with party := fun h => if h = holder then p else s.party h }

inductive LeaseEvent
  | pass (d : Nat)
  | acquire (l : ControllerLease) (driver : Driver)
  | wake (holder : String)
  | renew (holder : String) (driver : Driver)
  | look (holder : String)
  | stop (holder : String)
  | release (holder : String) (driver : Driver)

def afterRenewal (renewedAt : Time) (held : Option ControllerLease)
    (err : Option StoreError) : LeaseParty :=
  match err with
  | some (.conflict _) | some (.notFound _) =>
    { p with answer := none, leaseLost := some (held.getD { holder := "nobody" }) }
  | none => { p with answer := none, leaseRenewed := some renewedAt }
  -- a write that failed is not a lost lease
  | some _ => { p with answer := none }

def acquireStep (l : ControllerLease) (d : Driver) : LeaseSystem :=
  match acquireControllerLease d s.now leaseTTL false l s.row with
  | (row, some taken, none) =>
    { s with row := row }.withParty l.holder { s.party l.holder with lease := some taken }
  | (row, _, _) => { s with row := row }

def wakeStep : LeaseSystem :=
  let p := s.party holder
  if p.lease.isSome && p.reading.isNone && p.answer.isNone then
    s.withParty holder { p with reading := some s.now }
  else s

def renewStep (d : Driver) : LeaseSystem :=
  let p := s.party holder
  match p.reading with
  | none => s
  | some renewedAt =>
    let written := renewControllerLease d s.now holder s.row
    { s with row := written.1 }.withParty holder
      { p with reading := none, answer := some (renewedAt, written.2.1, written.2.2) }

def lookStep : LeaseSystem :=
  let p := s.party holder
  match p.answer with
  | none => s
  | some (renewedAt, held, err) => s.withParty holder (afterRenewal p renewedAt held err)

def stopStep : LeaseSystem :=
  -- the process has ended, and nothing of what it remembered is left
  s.withParty holder {}

def releaseStep (d : Driver) : LeaseSystem :=
  { s with row := (releaseControllerLease d holder s.row).1 }

def leaseStep : LeaseEvent → LeaseSystem
  | .pass d => { s with now := s.now + d }
  | .acquire l d => acquireStep s l d
  | .wake holder => wakeStep s holder
  | .renew holder d => renewStep s holder d
  | .look holder => lookStep s holder
  | .stop holder => stopStep s holder
  | .release holder d => releaseStep s holder d

def leaseRun (events : List LeaseEvent) (s : LeaseSystem) : LeaseSystem :=
  events.foldl leaseStep s

def LeaseSystem.acts : Bool :=
  (s.party holder).lease.isSome && mayAct s.now (s.party holder)

def leaseSlack : Duration := 999999

theorem stamp_le {t : Time} : atMillis (ms t) ≤ t := by
  have hfloor : ∀ a b : Int, (a - b) / 1000000 * 1000000 + b ≤ a := by
    omega
  exact hfloor t unixEpoch

theorem le_stamp {t : Time} : t ≤ atMillis (ms t) + leaseSlack := by
  have hfloor : ∀ a b : Int, a ≤ (a - b) / 1000000 * 1000000 + b + 999999 := by
    omega
  exact hfloor t unixEpoch

def LeaseParty.readings : List Time :=
  (match p.lease with
    | none => []
    | some l => [p.leaseRenewed.getD l.renewedAt]) ++
  (match p.answer with
    | some (t, _, none) => [t]
    | _ => [])

def LeaseSystem.protocol : LeaseState String where
  now := s.now
  row := s.row.map fun r => (r.holder, atMillis r.renewedAt)
  readings := fun h => (s.party h).readings

structure LeaseParty.Timely (now : Time) (p : LeaseParty) : Prop where
  lease : ∀ l, p.lease = some l → l.renewedAt ≤ now
  renewed : ∀ t, p.leaseRenewed = some t → t ≤ now
  reading : ∀ t, p.reading = some t → t ≤ now
  answer : ∀ t held err, p.answer = some (t, held, err) → t ≤ now

theorem LeaseParty.Timely.later {now : Time} {p : LeaseParty} (h : p.Timely now) (later : Time)
    (hle : now ≤ later) : p.Timely later :=
  ⟨fun l hl => (h.lease l hl).trans hle, fun t ht => (h.renewed t ht).trans hle,
    fun t ht => (h.reading t ht).trans hle, fun t held err ht => (h.answer t held err ht).trans hle⟩

theorem LeaseParty.Timely.readings {now : Time} {p : LeaseParty} (h : p.Timely now) :
    ∀ v ∈ p.readings, v ≤ now := by
  intro v hv
  rcases mem_append.mp hv with hown | hanswer
  · cases hl : p.lease with
    | none =>
      rw [hl] at hown
      exact absurd hown not_mem_nil
    | some l =>
      rw [hl] at hown
      rw [mem_singleton.mp hown]
      cases hr : p.leaseRenewed with
      | none => exact h.lease l hl
      | some t => exact h.renewed t hr
  · split at hanswer
    · rename_i t held ha
      rw [mem_singleton.mp hanswer]
      exact h.answer t held none ha
    · exact absurd hanswer not_mem_nil

structure Timely (host : String → String) (s : LeaseSystem) : Prop where
  party : ∀ h, (s.party h).Timely s.now
  row : ∀ r, s.row = some r → r.host = host r.holder

theorem live_of_acts {s : LeaseSystem} {holder : String} (h : s.acts holder = true) :
    s.protocol.live leaseTTL holder := by
  unfold LeaseSystem.acts at h
  rw [Bool.and_eq_true] at h
  obtain ⟨hlease, hact⟩ := h
  obtain ⟨l, hl⟩ := Option.isSome_iff_exists.mp hlease
  unfold mayAct at hact
  split at hact
  · exact absurd hact Bool.false_ne_true
  rw [hl] at hact
  have hlt := of_decide_eq_true (Bool.and_eq_true_iff.mp hact).2
  refine ⟨(s.party holder).leaseRenewed.getD l.renewedAt, ?_, hlt⟩
  change _ ∈ (s.party holder).readings
  rw [LeaseParty.readings, hl]
  exact mem_append_left _ (mem_singleton.mpr rfl)

section
variable {s : LeaseSystem} {holder : String} {p : LeaseParty}

theorem party_withParty (h : String) :
    (s.withParty holder p).party h = if h = holder then p else s.party h := rfl

theorem readings_withParty (row : Option LeaseRow) :
    ({ s with row := row }.withParty holder p).protocol =
      { now := s.now
        row := row.map fun r => (r.holder, atMillis r.renewedAt)
        readings := fun h => if h = holder then p.readings else s.protocol.readings h } := by
  unfold LeaseSystem.protocol
  congr 1
  funext h
  rw [party_withParty]
  split
  · rfl
  · rfl

theorem timely_withParty {host : String → String} {row : Option LeaseRow}
    (hs : Timely host s) (hp : p.Timely s.now)
    (hrow : ∀ r, row = some r → r.host = host r.holder) :
    Timely host ({ s with row := row }.withParty holder p) := by
  refine ⟨fun h => ?_, hrow⟩
  rw [party_withParty]
  split
  · exact hp
  · exact hs.party h

theorem forgets_withParty (hsub : ∀ v ∈ p.readings, v ∈ s.protocol.readings holder) :
    LeaseStep leaseTTL leaseSlack s.protocol ({ s with row := s.row }.withParty holder p).protocol := by
  rw [readings_withParty]
  exact LeaseStep.forget s.protocol holder _ hsub

end

def Unhurried (host : String → String) (s : LeaseSystem) : LeaseEvent → Prop
  -- no other's lease is asked for in the millisecond in which it goes stale, and a lease is handed
  -- back only by a controller that has stopped
  | .acquire l _ => l.host = host l.holder ∧ ∀ r, s.row = some r → r.holder ≠ l.holder →
      s.now < atMillis r.renewedAt + leaseTTL ∨ atMillis r.renewedAt + leaseTTL + leaseSlack ≤ s.now
  | .release holder _ => (s.party holder).lease = none ∧ (s.party holder).answer = none
  | _ => True

section
variable {host : String → String} (s : LeaseSystem) (hs : Timely host s)
include hs

def LeaseFollows (s s' : LeaseSystem) : Prop :=
  LeaseStep leaseTTL leaseSlack s.protocol s'.protocol ∨ s'.protocol = s.protocol

variable {d : Driver}

theorem acquire_follows (hinj : Function.Injective host) {l : ControllerLease}
    (he : Unhurried host s (.acquire l d)) :
    Timely host (acquireStep s l d) ∧ LeaseFollows s (acquireStep s l d) := by
  unfold acquireStep
  rcases acquire_cases with ⟨held, e, h⟩ | ⟨h, hfree⟩
  · rw [h]
    cases held <;> exact ⟨hs, .inr rfl⟩
  rw [h]
  obtain ⟨hhost, hlate⟩ := he
  have hp : LeaseParty.Timely s.now { s.party l.holder with
      lease := some (stampedLease s.now (s.row.map scanLease) l) } := by
    have hold := hs.party l.holder
    refine ⟨fun taken htaken => ?_, hold.renewed, hold.reading, hold.answer⟩
    rw [← Option.some.inj htaken]
    exact stamp_le
  refine ⟨timely_withParty hs hp ?_, .inl ?_⟩
  · intro r hr
    rw [← Option.some.inj hr]
    exact hhost
  rw [readings_withParty]
  refine LeaseStep.take s.protocol l.holder (atMillis (ms (atMillis (ms s.now)))) _ ?_ ?_ ?_
  · intro other old hrow
    obtain ⟨r, hr, heq⟩ := Option.map_eq_some_iff.mp hrow
    rw [Prod.mk.injEq] at heq
    rw [← heq.1, ← heq.2]
    rcases hfree r hr with hmine | hours | hstale
    · exact .inl hmine
    · rw [hs.row r hr, hhost] at hours
      exact .inl (hinj hours)
    by_cases hmine : r.holder = l.holder
    · exact .inl hmine
    rcases hlate r hr hmine with hfresh | hlong
    · exact absurd hstale (not_le_of_gt hfresh)
    right
    rw [add_right_comm]
    exact hlong
  · exact hp.readings
  · rw [ms_atMillis]
    exact le_stamp

theorem wake_follows {holder : String} :
    Timely host (wakeStep s holder) ∧ LeaseFollows s (wakeStep s holder) := by
  unfold wakeStep
  dsimp only
  split
  · have hold := hs.party holder
    have hp : LeaseParty.Timely s.now { s.party holder with reading := some s.now } := by
      refine ⟨hold.lease, hold.renewed, fun t ht => ?_, hold.answer⟩
      rw [← Option.some.inj ht]
    exact ⟨timely_withParty hs hp hs.row, .inl (forgets_withParty fun v hv => hv)⟩
  · exact ⟨hs, .inr rfl⟩

theorem renew_follows {holder : String} :
    Timely host (renewStep s holder d) ∧ LeaseFollows s (renewStep s holder d) := by
  unfold renewStep
  dsimp only
  cases hreading : (s.party holder).reading with
  | none => exact ⟨hs, .inr rfl⟩
  | some renewedAt =>
    have hold := hs.party holder
    have hp : ∀ held err, LeaseParty.Timely s.now { s.party holder with
        reading := none
        answer := some (renewedAt, held, err) } := by
      intro held err
      refine ⟨hold.lease, hold.renewed, fun t ht => absurd ht (by simp), fun t h e ht => ?_⟩
      rw [Option.some.injEq, Prod.mk.injEq] at ht
      rw [← ht.1]
      exact hold.reading renewedAt hreading
    rcases renew_cases with ⟨held, e, h⟩ | ⟨r, hr, hholder, h⟩
    · rw [h]
      refine ⟨timely_withParty hs (hp held (some e)) hs.row, .inl (forgets_withParty ?_)⟩
      intro v hv
      rcases mem_append.mp hv with hown | hnone
      · exact mem_append_left _ hown
      · exact absurd hnone not_mem_nil
    · rw [h]
      refine ⟨timely_withParty hs (hp none none) ?_, .inl ?_⟩
      · intro r' hr'
        rw [← Option.some.inj hr']
        exact hs.row r hr
      rw [readings_withParty]
      rw [hholder]
      refine LeaseStep.take s.protocol holder (atMillis (ms s.now)) _ ?_ ?_ le_stamp
      · intro other old hrow
        obtain ⟨r', hr', heq⟩ := Option.map_eq_some_iff.mp hrow
        rw [hr, Option.some.injEq] at hr'
        rw [Prod.mk.injEq, ← hr', hholder] at heq
        exact .inl heq.1.symm
      exact (hp none none).readings

theorem look_follows {holder : String} :
    Timely host (lookStep s holder) ∧ LeaseFollows s (lookStep s holder) := by
  unfold lookStep
  dsimp only
  cases hanswer : (s.party holder).answer with
  | none => exact ⟨hs, .inr rfl⟩
  | some answer =>
    obtain ⟨renewedAt, held, err⟩ := answer
    have hold := hs.party holder
    have hnone : ∀ t h e, (none : Option (Time × Option ControllerLease × Option StoreError)) =
        some (t, h, e) → t ≤ s.now := fun t h e hfalse => absurd hfalse (by simp)
    -- a reading it goes on with is one it had: its own, or the one the answer was for
    have hcases : (afterRenewal (s.party holder) renewedAt held err).Timely s.now ∧
        ∀ v ∈ (afterRenewal (s.party holder) renewedAt held err).readings,
          v ∈ (s.party holder).readings := by
      unfold afterRenewal
      split
      · exact ⟨⟨hold.lease, hold.renewed, hold.reading, hnone⟩,
          fun v hv => mem_append_left _ (by simpa [LeaseParty.readings] using hv)⟩
      · exact ⟨⟨hold.lease, hold.renewed, hold.reading, hnone⟩,
          fun v hv => mem_append_left _ (by simpa [LeaseParty.readings] using hv)⟩
      · refine ⟨⟨hold.lease, fun t ht => ?_, hold.reading, hnone⟩, fun v hv => ?_⟩
        · rw [← Option.some.inj ht]
          exact hold.answer renewedAt held none hanswer
        have hv' : v = renewedAt := by
          cases hl : (s.party holder).lease <;> simp [LeaseParty.readings, hl] at hv
          exact hv
        rw [hv', LeaseParty.readings, hanswer]
        exact mem_append_right _ (mem_singleton.mpr rfl)
      · exact ⟨⟨hold.lease, hold.renewed, hold.reading, hnone⟩,
          fun v hv => mem_append_left _ (by simpa [LeaseParty.readings] using hv)⟩
    exact ⟨timely_withParty hs hcases.1 hs.row, .inl (forgets_withParty hcases.2)⟩

theorem stop_follows {holder : String} :
    Timely host (stopStep s holder) ∧ LeaseFollows s (stopStep s holder) := by
  have hp : LeaseParty.Timely s.now {} := ⟨nofun, nofun, nofun, nofun⟩
  exact ⟨timely_withParty hs hp hs.row, .inl (forgets_withParty nofun)⟩

theorem release_follows {holder : String} (he : Unhurried host s (.release holder d)) :
    Timely host (releaseStep s holder d) ∧ LeaseFollows s (releaseStep s holder d) := by
  have hquiet : s.protocol.readings holder = [] := by
    change (s.party holder).readings = []
    rw [LeaseParty.readings, he.1, he.2]
    rfl
  unfold releaseStep
  rcases release_cases with ⟨e, h⟩ | h
  · rw [h]
    exact ⟨hs, .inr rfl⟩
  rw [h]
  cases hrow : s.row with
  | none => exact ⟨⟨hs.party, nofun⟩, .inr (by simp [LeaseSystem.protocol, hrow])⟩
  | some r =>
    by_cases hholder : r.holder = holder
    · have hgone : (some r).filter (fun r : LeaseRow => r.holder != holder) = none :=
        Option.filter_some_neg (by rw [hholder, bne_self_eq_false])
      rw [hgone]
      refine ⟨⟨hs.party, nofun⟩, .inl ?_⟩
      have hdrop : LeaseStep leaseTTL leaseSlack s.protocol _ := LeaseStep.drop s.protocol holder
        (atMillis r.renewedAt) (by rw [LeaseSystem.protocol, hrow, ← hholder]; rfl)
      have hsame : (fun j => if j = holder then [] else s.protocol.readings j) =
          s.protocol.readings := by
        funext j
        split
        · rename_i hj
          rw [hj, hquiet]
        · rfl
      rw [hsame] at hdrop
      exact hdrop
    · have hkept : (some r).filter (fun r : LeaseRow => r.holder != holder) = some r :=
        Option.filter_some_pos (bne_iff_ne.mpr hholder)
      rw [hkept, ← hrow]
      exact ⟨hs, .inr rfl⟩

theorem event_follows (hinj : Function.Injective host) {e : LeaseEvent}
    (he : Unhurried host s e) : Timely host (leaseStep s e) ∧ LeaseFollows s (leaseStep s e) := by
  cases e with
  | pass d =>
    have hlater : s.now ≤ s.now + d := Int.le_add_of_nonneg_right (Int.natCast_nonneg d)
    exact ⟨⟨fun h => (hs.party h).later _ hlater, hs.row⟩,
      .inl (LeaseStep.pass s.protocol (s.now + d) hlater)⟩
  | acquire l d => exact acquire_follows s hs hinj he
  | wake holder => exact wake_follows s hs
  | renew holder d => exact renew_follows s hs
  | look holder => exact look_follows s hs
  | stop holder => exact stop_follows s hs
  | release holder d => exact release_follows s hs he

end

def UnhurriedRun (host : String → String) : LeaseSystem → List LeaseEvent → Prop
  | _, [] => True
  | s, e :: rest => Unhurried host s e ∧ UnhurriedRun host (leaseStep s e) rest

theorem leased_run {host : String → String} (hinj : Function.Injective host)
    {before after : List LeaseEvent} (s : LeaseSystem) (hs : Timely host s)
    (hleased : Leased leaseTTL leaseSlack s.protocol)
    (hrun : UnhurriedRun host s (before ++ after)) :
    Leased leaseTTL leaseSlack (leaseRun before s).protocol := by
  induction before generalizing s with
  | nil => exact hleased
  | cons e before ih =>
    obtain ⟨he, hrest⟩ := hrun
    obtain ⟨htimely, hfollows⟩ := event_follows s hs hinj he
    refine ih (leaseStep s e) htimely ?_ hrest
    rcases hfollows with hstep | hsame
    · exact leased_step leaseTTL leaseSlack hleased hstep
    · rw [hsame]
      exact hleased

/-- From an empty database, over every interleaving of controllers on hosts of their own: at most
one of those that hold the lease may act. -/
theorem at_most_one_acts (host : String → String) (hinj : Function.Injective host) (start : Time)
    (events : List LeaseEvent) (hrun : UnhurriedRun host { now := start } events)
    (before after : List LeaseEvent) (hevents : events = before ++ after)
    (holder other : String) (hholder : (leaseRun before { now := start }).acts holder = true)
    (hother : (leaseRun before { now := start }).acts other = true) : holder = other := by
  have hs : Timely host { now := start } := by
    refine ⟨fun h => ⟨fun l hl => ?_, fun t ht => ?_, fun t ht => ?_, fun t a e ht => ?_⟩,
      fun r hr => ?_⟩
    · exact absurd hl (by simp)
    · exact absurd ht (by simp)
    · exact absurd ht (by simp)
    · exact absurd ht (by simp)
    · exact absurd hr (by simp)
  have hempty : Leased leaseTTL leaseSlack (LeaseSystem.protocol { now := start }) := by
    intro k v hv
    exact absurd hv not_mem_nil
  rw [hevents] at hrun
  have hleased := leased_run hinj { now := start } hs hempty hrun
  exact live_unique leaseTTL leaseSlack hleased (live_of_acts hholder) (live_of_acts hother)

def leftBehind (wait : Nat) : List LeaseEvent :=
  [.acquire { holder := "a", host := "a" } {}, .pass 30000000000, .wake "a", .renew "a" {},
    .look "a", .pass wait, .acquire { holder := "b", host := "b" } {}]

theorem at_most_one_acts_left_behind :
    (leaseRun (leftBehind 91000000000) { now := unixEpoch + 500000 }).acts "b" = true ∧
      ∀ other, (leaseRun (leftBehind 91000000000) { now := unixEpoch + 500000 }).acts other = true →
        other = "b" := by
  have hacts : (leaseRun (leftBehind 91000000000) { now := unixEpoch + 500000 }).acts "b" = true := by
    decide +kernel
  have hrun : UnhurriedRun (fun h => h) { now := unixEpoch + 500000 } (leftBehind 91000000000) := by
    refine ⟨⟨rfl, fun r hr => absurd hr (by simp)⟩, trivial, trivial, trivial, trivial, trivial,
      ⟨rfl, fun r hr _ => .inr ?_⟩, trivial⟩
    have hlong : (leaseRun ((leftBehind 91000000000).take 6)
        { now := unixEpoch + 500000 }).row.all (fun r =>
          decide (atMillis r.renewedAt + leaseTTL + leaseSlack ≤
            (leaseRun ((leftBehind 91000000000).take 6) { now := unixEpoch + 500000 }).now)) =
          true := by
      decide +kernel
    have hlast : (leaseRun ((leftBehind 91000000000).take 6)
        { now := unixEpoch + 500000 }).row = some r := hr
    rw [hlast] at hlong
    exact of_decide_eq_true hlong
  refine ⟨hacts, fun other hother => ?_⟩
  exact at_most_one_acts (fun h => h) Function.injective_id (unixEpoch + 500000)
    (leftBehind 91000000000) hrun (leftBehind 91000000000) [] (append_nil _).symm other "b"
    hother hacts

def handedBack : List LeaseEvent :=
  [.acquire { holder := "a", host := "a" } {}, .release "a" {},
    .acquire { holder := "b", host := "b" } {}]

/-- Half a millisecond earlier the lease is stale by the row's stamp and not by its holder's
reading; and a controller that has handed its lease back and goes on knows nothing of it. -/
theorem two_act :
    (leaseRun (leftBehind 89999500000) { now := unixEpoch + 500000 }).acts "a" = true ∧
      (leaseRun (leftBehind 89999500000) { now := unixEpoch + 500000 }).acts "b" = true ∧
      (leaseRun handedBack { now := unixEpoch }).acts "a" = true ∧
      (leaseRun handedBack { now := unixEpoch }).acts "b" = true := by
  decide +kernel

end Zoomies.Controller
