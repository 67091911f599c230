import Zoomies.StoreRows

/-! The controller lease: one row that says which controller runs on the database. -/
namespace Zoomies.Store
open Zoomies.Go

structure ControllerLease where
  holder : String := ""
  host : String := ""
  pid : Int := 0
  version : String := ""
  acquiredAt : Time := 0
  renewedAt : Time := 0

structure LeaseRow where
  holder : String
  host : String
  pid : Int
  version : String
  acquiredAt : Int
  renewedAt : Int

def scanLease (r : LeaseRow) : ControllerLease where
  holder := r.holder
  host := r.host
  pid := r.pid
  version := r.version
  acquiredAt := atMillis r.acquiredAt
  renewedAt := atMillis r.renewedAt

def stale (l : Option ControllerLease) (now : Time) (ttl : Duration) : Bool :=
  match l with
  | none => true
  | some l => !decide (now < l.renewedAt + ttl)

variable (d : Driver) (now : Time)

def stampedLease (current : Option ControllerLease) (l : ControllerLease) : ControllerLease :=
  let truncated := atMillis (ms now)
  { l with
    renewedAt := truncated
    acquiredAt := match current with
      | some c => if c.holder = l.holder then c.acquiredAt else truncated
      | none => truncated }

def writeLease (l : ControllerLease) : LeaseRow where
  holder := l.holder
  host := l.host
  pid := l.pid
  version := l.version
  acquiredAt := ms l.acquiredAt
  renewedAt := ms l.renewedAt

def leaseRefused (ttl : Duration) (takeover : Bool) (l : ControllerLease)
    (current : Option ControllerLease) : Bool :=
  let mine := current.any fun c => c.holder == l.holder
  let ours := current.any fun c => l.host != "" && c.host == l.host
  !takeover && !mine && !ours && !stale current now ttl

def acquireBody (refused : Bool) (new : LeaseRow) : Except StoreError (Option LeaseRow × Unit) :=
  match d.queryError with
  | some e => .error (.driver e)
  | none =>
    if refused then .error (.conflict "already exists")
    else refusing d.execError (some new, ())

def acquireControllerLease (ttl : Duration) (takeover : Bool)
    (l : ControllerLease) (row : Option LeaseRow) :
    Option LeaseRow × Option ControllerLease × Option StoreError :=
  if l.holder = "" then
    (row, none, some (.refused "acquiring the controller lease: a lease needs a holder"))
  else
    let current := row.map scanLease
    let taken := stampedLease now current l
    let written := tx d row
      (acquireBody d (leaseRefused now ttl takeover l current) (writeLease taken))
    match written.2 with
    | .ok _ => (written.1, some taken, none)
    | .error (.conflict text) => (written.1, current, some (.conflict text))
    | .error e => (written.1, some l, some e)

def renewControllerLease (holder : String) (row : Option LeaseRow) :
    Option LeaseRow × Option ControllerLease × Option StoreError :=
  let written := tx d row <|
    match d.queryError, row with
    | some e, _ => .error (.driver e)
    | none, none => .error (.notFound "not found")
    | none, some r =>
      if r.holder ≠ holder then .error (.conflict "already exists")
      else refusing d.execError (some { r with renewedAt := ms now }, ())
  match written.2 with
  | .ok _ => (written.1, none, none)
  | .error (.conflict text) => (written.1, row.map scanLease, some (.conflict text))
  | .error e => (written.1, none, some e)

def releaseControllerLease (holder : String) (row : Option LeaseRow) :
    Option LeaseRow × Except StoreError Unit :=
  exec d row (row.filter fun r => r.holder != holder)

variable {d : Driver} {row : Option LeaseRow} {now : Time}

theorem acquireBody_ok {refused : Bool} {new : LeaseRow}
    {u : Unit} (h : acquireBody d refused new = .ok (row, u)) :
    refused = false ∧ row = some new := by
  unfold acquireBody at h
  cases hq : d.queryError with
  | some e => simp [hq] at h
  | none =>
    cases hx : d.execError <;> cases refused <;> simp [hq, hx, refusing] at h
    exact ⟨rfl, h.symm⟩

theorem of_not_leaseRefused {ttl : Duration} {l : ControllerLease} {r : LeaseRow}
    (h : leaseRefused now ttl false l (some (scanLease r)) = false) :
    r.holder = l.holder ∨ r.host = l.host ∨ atMillis r.renewedAt + ttl ≤ now := by
  by_cases hmine : r.holder = l.holder
  · exact .inl hmine
  by_cases hours : r.host = l.host
  · exact .inr (.inl hours)
  refine .inr (.inr ?_)
  have hm : (r.holder == l.holder) = false := beq_eq_false_iff_ne.mpr hmine
  have ho : (r.host == l.host) = false := beq_eq_false_iff_ne.mpr hours
  simp [leaseRefused, stale, scanLease, hm, ho] at h
  exact not_lt.mp (of_decide_eq_false h)

theorem acquire_cases {ttl : Duration} {l : ControllerLease} :
    (∃ held e, acquireControllerLease d now ttl false l row = (row, held, some e)) ∨
      acquireControllerLease d now ttl false l row =
        (some (writeLease (stampedLease now (row.map scanLease) l)),
          some (stampedLease now (row.map scanLease) l), none) ∧
      ∀ r, row = some r → r.holder = l.holder ∨ r.host = l.host ∨
        atMillis r.renewedAt + ttl ≤ now := by
  unfold acquireControllerLease
  split
  · exact .inl ⟨_, _, rfl⟩
  dsimp only
  rcases tx_cases with ⟨e, h⟩ | ⟨row', u, hbody, h⟩
  · left
    rw [h]
    cases e <;> exact ⟨_, _, rfl⟩
  right
  obtain ⟨hfree, hrow⟩ := acquireBody_ok hbody
  rw [h, hrow]
  refine ⟨rfl, fun r hr => ?_⟩
  rw [hr] at hfree
  exact of_not_leaseRefused hfree

theorem renew_cases {holder : String} :
    (∃ held e, renewControllerLease d now holder row = (row, held, some e)) ∨
      ∃ r, row = some r ∧ r.holder = holder ∧ renewControllerLease d now holder row =
          (some { r with renewedAt := ms now }, none, none) := by
  unfold renewControllerLease
  rcases tx_cases with ⟨e, h⟩ | ⟨row', u, hbody, h⟩
  · left
    rw [h]
    cases e <;> exact ⟨_, _, rfl⟩
  right
  rw [h]
  cases hq : d.queryError with
  | some e => simp [hq] at hbody
  | none =>
    cases row with
    | none => simp [hq] at hbody
    | some r =>
      by_cases hholder : r.holder = holder
      · subst hholder
        cases hx : d.execError with
        | some e => simp [hq, hx, refusing] at hbody
        | none =>
          simp [hq, hx, refusing] at hbody
          rw [← hbody]
          exact ⟨r, rfl, rfl, rfl⟩
      · simp [hq, hholder] at hbody

theorem release_cases {holder : String} :
    (∃ e, releaseControllerLease d holder row = (row, .error e)) ∨
      releaseControllerLease d holder row = (row.filter (fun r => r.holder != holder), .ok ()) :=
  exec_cases

end Zoomies.Store
