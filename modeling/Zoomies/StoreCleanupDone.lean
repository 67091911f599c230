import Zoomies.StoreRows

/-! The evidence a runner row keeps about being taken away, call by call and over any sequence of
calls. -/
namespace Zoomies.Store
open Zoomies.Go

variable (reason : String) (now : Int) (c : CleanupColumns)

def hostFailed : CleanupColumns :=
  { c with
    hostCleanupError := reason
    cleanupError := reason ++ (if c.registrationCleanupError = "" then ""
      else "; " ++ c.registrationCleanupError)
    cleanupFailedAt := some now
    cleanupAttempts := c.cleanupAttempts + 1
    cleanedUpAt := none }

def registrationComplaint (reason : String) : String :=
  (if c.hostCleanupError = "" then "" else c.hostCleanupError ++ "; ") ++ reason

def registrationFailed : CleanupColumns :=
  { c with
    registrationCleanupError := reason
    cleanupError := registrationComplaint c reason
    cleanupFailedAt := some now
    cleanupAttempts := c.cleanupAttempts + 1
    cleanedUpAt := none
    registrationDeletedAt := none }

def registrationDeferred : CleanupColumns :=
  { c with
    registrationCleanupError := reason
    cleanupError := registrationComplaint c reason
    cleanupFailedAt := c.cleanupFailedAt.or (some now)
    cleanedUpAt := none
    registrationDeletedAt := none }

def hostCleared : CleanupColumns :=
  { c with
    hostCleanupError := ""
    cleanupError := c.registrationCleanupError
    cleanupFailedAt := if c.registrationCleanupError = "" then none else c.cleanupFailedAt
    cleanedUpAt := if c.registrationCleanupError = "" then c.cleanedUpAt else none }

def hostConfirmed : CleanupColumns :=
  { c with
    hostRemovedAt := some now
    hostCleanupError := ""
    cleanupError := c.registrationCleanupError
    cleanupFailedAt := if c.registrationCleanupError = "" then none else c.cleanupFailedAt
    cleanedUpAt := if c.registrationDeletedAt.isSome ∧ c.registrationCleanupError = ""
      then some now else none }

def registrationConfirmed : CleanupColumns :=
  { c with
    registrationDeletedAt := some now
    registrationCleanupError := ""
    cleanupError := c.hostCleanupError
    cleanupFailedAt := if c.hostCleanupError = "" then none else c.cleanupFailedAt
    cleanedUpAt := if c.hostRemovedAt.isSome ∧ c.hostCleanupError = ""
      then some now else none }

def stamp (host : Bool) (c : CleanupColumns) : Option Int :=
  if host then c.hostRemovedAt else c.registrationDeletedAt

def confirmed (host : Bool) (now : Int) (c : CleanupColumns) : CleanupColumns :=
  if host then hostConfirmed now c else registrationConfirmed now c

variable (d : Driver) (now : Time) (id : String)

def setCleanup (f : CleanupColumns → CleanupColumns) (t : List RunnerRow) : List RunnerRow :=
  setAt (·.id) id (fun r => { r with cleanup := f r.cleanup }) t

variable (reason : String) (t : List RunnerRow)

def recordCleanupFailure : List RunnerRow × Except StoreError Unit :=
  let reason := if reason = "" then "cleanup failed without saying why" else reason
  let written := exec d t (setCleanup id (fun c =>
    if c.hostRemovedAt.isSome then c else hostFailed reason (ms now) c) t)
  (written.1,
    match written.2 with
    | .error e => .error e
    | .ok () =>
      if d.queryError = none ∧
          (rowAt (·.id) id t).any (fun r => r.cleanup.hostRemovedAt.isSome) then
        .error (.conflict ("runner " ++ id ++
          ": its host has already confirmed it removed: already exists"))
      else .ok ())

def recordRegistrationCleanupFailure : List RunnerRow × Except StoreError Unit :=
  let reason := if reason = "" then "the GitHub runner registration could not be deleted"
    else reason
  exec d t (setCleanup id (registrationFailed reason (ms now)) t)

def deferRegistrationCleanup : List RunnerRow × Except StoreError Unit :=
  exec d t (setCleanup id (registrationDeferred reason (ms now)) t)

def clearCleanupFailure : List RunnerRow × Except StoreError Unit :=
  exec d t (setCleanup id hostCleared t)

def confirmBody (host : Bool) (t : List RunnerRow) :
    Bool × Except StoreError (List RunnerRow × Unit) :=
  match d.queryError with
  | some e => (false, .error (.driver e))
  | none =>
    match rowAt (·.id) id t with
    | none => (false, .ok (t, ()))
    | some r =>
      if (stamp host r.cleanup).isSome then (false, .ok (t, ()))
      else
        let t' := setCleanup id (confirmed host (ms now)) t
        let completed := (confirmed host (ms now) r.cleanup).cleanedUpAt.isSome
        -- the runner's session is written only by the confirmation that completes the cleanup
        (completed, if completed then refusing d.execError (t', ()) else .ok (t', ()))

def confirmRunnerCleanup (host : Bool) (t : List RunnerRow) :
    List RunnerRow × Bool × Except StoreError Unit :=
  let body := confirmBody d now id host t
  let written := tx d t body.2
  -- `completed` is the caller's variable: it stays as the body set it when the session's write or
  -- the commit fails and the row is rolled back
  (written.1, !(d.readOnly || d.beginError.isSome) && body.1, written.2)

inductive CleanupOp
  | hostFailure (reason : String)
  | registrationFailure (reason : String)
  | deferRegistration (reason : String)
  | clearHost
  | confirm (host : Bool)
  deriving DecidableEq

structure CleanupCall where
  id : String
  op : CleanupOp
  now : Time
  driver : Driver := {}

def CleanupCall.apply (c : CleanupCall) (t : List RunnerRow) : List RunnerRow × Bool :=
  match c.op with
  | .hostFailure reason => ((recordCleanupFailure c.driver c.now c.id reason t).1, false)
  | .registrationFailure reason =>
    ((recordRegistrationCleanupFailure c.driver c.now c.id reason t).1, false)
  | .deferRegistration reason => ((deferRegistrationCleanup c.driver c.now c.id reason t).1, false)
  | .clearHost => ((clearCleanupFailure c.driver c.id t).1, false)
  | .confirm host =>
    let written := confirmRunnerCleanup c.driver c.now c.id host t
    (written.1, written.2.1)

def runCleanup (calls : List CleanupCall) (t : List RunnerRow) : List RunnerRow :=
  calls.foldl (fun t c => (c.apply t).1) t

def Driver.lands (d : Driver) : Bool := d.execError.isNone && d.commitError.isNone

section
variable {σ β : Type} {d : Driver} {s s' : σ} {b : β}

theorem tx_enters (h : (d.readOnly || d.beginError.isSome) = false) (hc : d.commitError = none) :
    tx d s (.ok (s', b)) = (s', .ok b) := by
  rw [Bool.or_eq_false_iff, Option.isSome_eq_false_iff, Option.isNone_iff_eq_none] at h
  rw [tx, h.1, h.2, hc]
  rfl

theorem enters_of_tx {fn : Except StoreError (σ × β)} (h : tx d s fn = (s', .ok b)) :
    (!(d.readOnly || d.beginError.isSome)) = true := by
  unfold tx at h
  split at h
  · cases h
  rename_i hro
  split at h
  · cases h
  rename_i hbegin
  rw [hbegin, Bool.eq_false_iff.mpr hro]
  rfl

end

theorem lands_eq_true {d : Driver} (h : d.lands = true) :
    d.execError = none ∧ d.commitError = none := by
  rw [Driver.lands, Bool.and_eq_true, Option.isNone_iff_eq_none, Option.isNone_iff_eq_none] at h
  exact h

inductive ColumnStep (lands : Bool) (c : CleanupColumns) : CleanupOp → CleanupColumns → Bool → Prop
  | same (op : CleanupOp) : ColumnStep lands c op c false
  | hostFailed (given reason : String) (now : Int) (hr : reason ≠ "")
      (h : c.hostRemovedAt = none) :
      ColumnStep lands c (.hostFailure given) (hostFailed reason now c) false
  | registrationFailed (given reason : String) (now : Int) (hr : reason ≠ "") :
      ColumnStep lands c (.registrationFailure given) (registrationFailed reason now c) false
  | deferred (reason : String) (now : Int) :
      ColumnStep lands c (.deferRegistration reason) (registrationDeferred reason now c) false
  | cleared : ColumnStep lands c .clearHost (hostCleared c) false
  | confirmed (host : Bool) (now : Int) (h : stamp host c = none) :
      ColumnStep lands c (.confirm host) (confirmed host now c) (confirmed host now c).cleanedUpAt.isSome
  | lost (host : Bool) (hlost : lands = false) (h : stamp host c = none) :
      ColumnStep lands c (.confirm host) c true

theorem rowAt_setCleanup {i : String} {id : String} {f : CleanupColumns → CleanupColumns}
    {t : List RunnerRow} {r : RunnerRow} (h : rowAt (·.id) id t = some r) :
    rowAt (·.id) id (setCleanup i f t) =
      some (if id = i then { r with cleanup := f r.cleanup } else r) := by
  have hkey : ∀ o : RunnerRow, ({ o with cleanup := f o.cleanup } : RunnerRow).id = o.id :=
    fun _ => rfl
  rw [setCleanup, rowAt_setAt hkey, h, Option.map_some]

def HasCleanup (r : RunnerRow) (c : CleanupColumns) (t : List RunnerRow) : Prop :=
  rowAt (·.id) id t = some { r with cleanup := c }

/-- The body answers false and writes nothing, or stamps its side of a row that lacks the stamp. -/
theorem confirmBody_cases {d : Driver} {now : Time} {id : String} {host : Bool}
    {t : List RunnerRow} : ((confirmBody d now id host t).1 = false ∧
        ∀ t', (confirmBody d now id host t).2 = .ok (t', ()) → t' = t) ∨
      ∃ r, rowAt (·.id) id t = some r ∧ stamp host r.cleanup = none ∧
        (confirmBody d now id host t).1 = (confirmed host (ms now) r.cleanup).cleanedUpAt.isSome ∧
        ((confirmBody d now id host t).2 = .ok (setCleanup id (confirmed host (ms now)) t, ()) ∨
          d.execError.isSome ∧ ∃ e, (confirmBody d now id host t).2 = .error e) := by
  unfold confirmBody
  split
  · refine .inl ⟨rfl, fun t' ht' => ?_⟩
    cases ht'
  split
  · refine .inl ⟨rfl, fun t' ht' => ?_⟩
    cases ht'
    rfl
  rename_i r hr
  split
  · refine .inl ⟨rfl, fun t' ht' => ?_⟩
    cases ht'
    rfl
  rename_i hstamp
  refine .inr ⟨r, hr, Option.not_isSome_iff_eq_none.mp hstamp, rfl, ?_⟩
  dsimp only
  split
  · cases d.execError with
    | none => exact .inl rfl
    | some e => exact .inr ⟨rfl, _, rfl⟩
  · exact .inl rfl

section
variable {d : Driver} {now : Time} {id : String} {r : RunnerRow} {t : List RunnerRow}
  (h : rowAt (·.id) id t = some r)
include h

theorem exec_setCleanup {i : String} {f : CleanupColumns → CleanupColumns} :
    HasCleanup id r r.cleanup (exec d t (setCleanup i f t)).1 ∨
      HasCleanup id r (if id = i then f r.cleanup else r.cleanup)
        (exec d t (setCleanup i f t)).1 := by
  rcases exec_cases with ⟨e, he⟩ | he
  · rw [he]
    exact .inl h
  rw [he]
  right
  unfold HasCleanup
  rw [rowAt_setCleanup h]
  split <;> rfl

theorem recordCleanupFailure_row {i reason : String} :
    ∃ c', HasCleanup id r c' (recordCleanupFailure d now i reason t).1 ∧
      (c' = r.cleanup ∨ (id = i ∧ r.cleanup.hostRemovedAt = none ∧
        ∃ why, why ≠ "" ∧ c' = hostFailed why (ms now) r.cleanup)) := by
  unfold recordCleanupFailure
  generalize hw : (if reason = "" then "cleanup failed without saying why" else reason) = why
  have hwhy : why ≠ "" := by
    rw [← hw]
    split
    · decide
    · assumption
  rcases exec_setCleanup h with hrow | hrow
  · exact ⟨_, hrow, .inl rfl⟩
  refine ⟨_, hrow, ?_⟩
  by_cases hi : id = i
  · rw [if_pos hi]
    cases hh : r.cleanup.hostRemovedAt with
    | some v => exact .inl rfl
    | none => exact .inr ⟨hi, rfl, why, hwhy, rfl⟩
  · rw [if_neg hi]
    exact .inl rfl

/-- A confirmation leaves the row alone and answers false, stamps its side and answers whether that
completed the cleanup, or answers true for a write the row does not keep. -/
theorem confirmRunnerCleanup_row {i : String} {host : Bool} :
    ∃ c', HasCleanup id r c' (confirmRunnerCleanup d now i host t).1 ∧
      ((id ≠ i ∧ c' = r.cleanup) ∨ (id = i ∧ ColumnStep d.lands r.cleanup (.confirm host) c'
        (confirmRunnerCleanup d now i host t).2.1)) := by
  have hkept : ∀ answer, (id = i → answer = true → d.lands = false ∧ stamp host r.cleanup = none) →
      (id ≠ i ∧ r.cleanup = r.cleanup) ∨
        (id = i ∧ ColumnStep d.lands r.cleanup (.confirm host) r.cleanup answer) := by
    intro answer hlost
    by_cases hi : id = i
    · cases answer with
      | false => exact .inr ⟨hi, .same _⟩
      | true => exact .inr ⟨hi, .lost host (hlost hi rfl).1 (hlost hi rfl).2⟩
    · exact .inl ⟨hi, rfl⟩
  dsimp only [confirmRunnerCleanup]
  obtain ⟨hfalse, hrows⟩ | ⟨o, ho, hstamp, hdone, hrows⟩ :=
    @confirmBody_cases d now i host t
  · have hsame : (tx d t (confirmBody d now i host t).2).1 = t := by
      rcases tx_cases with ⟨e, he⟩ | ⟨t', b, hbody, he⟩
      · rw [he]
      · rw [he, hrows t' hbody]
    refine ⟨r.cleanup, ?_, hkept _ fun _ htrue => ?_⟩
    · rw [hsame]
      exact h
    · rw [hfalse, Bool.and_false] at htrue
      cases htrue
  have hrow : id = i → o = r := by
    rintro rfl
    rw [h] at ho
    exact (Option.some.inj ho).symm
  rcases tx_cases with ⟨e, he⟩ | ⟨t', b, hbody, he⟩
  · -- rolled back: true is answered only if the body ran and its session or its commit failed
    rw [he]
    refine ⟨r.cleanup, h, hkept _ fun hi htrue => ⟨?_, hrow hi ▸ hstamp⟩⟩
    rw [Bool.and_eq_true, Bool.not_eq_true'] at htrue
    by_contra hlands
    obtain ⟨hexec, hcommit⟩ := lands_eq_true (Bool.not_eq_false _ ▸ hlands)
    rcases hrows with hok | ⟨hsome, -⟩
    · rw [hok, tx_enters htrue.1 hcommit] at he
      cases (Prod.mk.inj he).2
    · rw [hexec] at hsome
      cases hsome
  · have hok : t' = setCleanup i (confirmed host (ms now)) t := by
      rcases hrows with hok | ⟨-, e, herr⟩
      · rw [hok] at hbody
        cases hbody
        rfl
      · rw [herr] at hbody
        cases hbody
    rw [he, hok]
    by_cases hi : id = i
    · subst hi
      obtain rfl := hrow rfl
      refine ⟨confirmed host (ms now) o.cleanup, ?_, .inr ⟨rfl, ?_⟩⟩
      · unfold HasCleanup
        rw [rowAt_setCleanup h, if_pos rfl]
      · rw [enters_of_tx he, hdone]
        exact .confirmed host (ms now) hstamp
    · refine ⟨r.cleanup, ?_, .inl ⟨hi, rfl⟩⟩
      unfold HasCleanup
      rw [rowAt_setCleanup h, if_neg hi]

/-- What any call can do to the row of a runner. -/
theorem call_row {x : CleanupCall} : ∃ c', HasCleanup id r c' (x.apply t).1 ∧
      ((id ≠ x.id ∧ c' = r.cleanup) ∨
        (id = x.id ∧ ColumnStep x.driver.lands r.cleanup x.op c' (x.apply t).2)) := by
  -- a statement that sets the columns by `f` is the step that `f` makes, or none at all
  have hstatement : ∀ (f : CleanupColumns → CleanupColumns) (op : CleanupOp),
      ColumnStep x.driver.lands r.cleanup op (f r.cleanup) false →
      ∃ c', HasCleanup id r c' (exec x.driver t (setCleanup x.id f t)).1 ∧
        ((id ≠ x.id ∧ c' = r.cleanup) ∨ (id = x.id ∧ ColumnStep x.driver.lands r.cleanup op c' false)) := by
    intro f op hf
    rcases exec_setCleanup h with hrow | hrow
    · refine ⟨_, hrow, ?_⟩
      by_cases hi : id = x.id
      · exact .inr ⟨hi, .same op⟩
      · exact .inl ⟨hi, rfl⟩
    refine ⟨_, hrow, ?_⟩
    by_cases hi : id = x.id
    · rw [if_pos hi]
      exact .inr ⟨hi, hf⟩
    · rw [if_neg hi]
      exact .inl ⟨hi, rfl⟩
  unfold CleanupCall.apply
  cases x.op with
  | hostFailure reason =>
    obtain ⟨c', hrow, hc⟩ := recordCleanupFailure_row h
    refine ⟨c', hrow, ?_⟩
    rcases hc with rfl | ⟨hi, hnone, why, hwhy, rfl⟩
    · by_cases hi : id = x.id
      · exact .inr ⟨hi, .same _⟩
      · exact .inl ⟨hi, rfl⟩
    · exact .inr ⟨hi, .hostFailed reason why (ms x.now) hwhy hnone⟩
  | registrationFailure reason =>
    apply hstatement
    apply ColumnStep.registrationFailed
    split
    · decide
    · assumption
  | deferRegistration reason => exact hstatement _ _ (.deferred reason (ms x.now))
  | clearHost => exact hstatement _ _ .cleared
  | confirm host =>
    obtain ⟨c', hrow, hc⟩ := confirmRunnerCleanup_row h
    exact ⟨c', hrow, hc⟩

end

end Zoomies.Store

namespace Zoomies.Store
open Zoomies.Go

structure Coherent (c : CleanupColumns) : Prop where
  cleaned_iff : c.cleanedUpAt.isSome = true ↔
    c.hostRemovedAt.isSome = true ∧ c.registrationDeletedAt.isSome = true
  host_settled : c.hostRemovedAt.isSome = true → c.hostCleanupError = ""
  registration_settled : c.registrationDeletedAt.isSome = true → c.registrationCleanupError = ""
  error_joined : c.cleanupError =
    join "; " ([c.hostCleanupError, c.registrationCleanupError].filter fun e => e ≠ "")
  failed_iff : c.cleanupFailedAt.isSome = true ↔
    c.hostCleanupError ≠ "" ∨ c.registrationCleanupError ≠ ""

theorem coherent_none : Coherent {} := by
  constructor <;> simp [join]

variable {c : CleanupColumns} {reason : String}

variable {now : Int}

theorem coherent_hostFailed (hc : Coherent c) (hr : reason ≠ "")
    (h : c.hostRemovedAt = none) : Coherent (hostFailed reason now c) := by
  refine ⟨?_, ?_, hc.registration_settled, ?_, ?_⟩ <;> dsimp only [hostFailed]
  · simp [h]
  · simp [h]
  · by_cases he : c.registrationCleanupError = ""
    · simp [he, hr, join]
    · simp [he, hr, join, String.append_assoc]
  · simp [hr]

theorem joined_registrationComplaint (hr : reason ≠ "") : registrationComplaint c reason =
      join "; " ([c.hostCleanupError, reason].filter fun e => e ≠ "") := by
  unfold registrationComplaint
  by_cases he : c.hostCleanupError = ""
  · simp [he, hr, join]
  · simp [he, hr, join]

theorem coherent_registrationFailed (hc : Coherent c) (hr : reason ≠ "") :
    Coherent (registrationFailed reason now c) := by
  refine ⟨?_, hc.host_settled, ?_, joined_registrationComplaint hr, ?_⟩ <;>
    dsimp only [registrationFailed]
  · simp
  · simp
  · simp [hr]

theorem coherent_registrationDeferred (hc : Coherent c) (hr : reason ≠ "") :
    Coherent (registrationDeferred reason now c) := by
  refine ⟨?_, hc.host_settled, ?_, joined_registrationComplaint hr, ?_⟩ <;>
    dsimp only [registrationDeferred]
  · simp
  · simp
  · simp [hr]

theorem joined_one {e : String} : e = join "; " (["", e].filter fun x => x ≠ "") ∧
    e = join "; " ([e, ""].filter fun x => x ≠ "") := by
  by_cases he : e = ""
  · simp [he, join]
  · simp [he, join]

theorem failed_of_other (hc : Coherent c) {e : String}
    (he : e = c.hostCleanupError ∨ e = c.registrationCleanupError) :
    (if e = "" then none else c.cleanupFailedAt).isSome = true ↔ e ≠ "" := by
  by_cases hn : e = ""
  · simp [hn]
  · rw [if_neg hn, hc.failed_iff]
    rcases he with rfl | rfl <;> simp [hn]

theorem coherent_hostCleared (hc : Coherent c) : Coherent (hostCleared c) := by
  refine ⟨?_, ?_, hc.registration_settled, ?_, ?_⟩ <;> dsimp only [hostCleared]
  · by_cases he : c.registrationCleanupError = ""
    · rw [if_pos he]
      exact hc.cleaned_iff
    rw [if_neg he]
    -- an outstanding registration has no stamp
    have hnot : ¬c.registrationDeletedAt.isSome = true := fun hs =>
      he (hc.registration_settled hs)
    simp [hnot]
  · intro _
    rfl
  · exact joined_one.1
  · simpa using failed_of_other hc (.inr rfl)

theorem coherent_confirmed (hc : Coherent c) {host : Bool} : Coherent (confirmed host now c) := by
  cases host with
  | true =>
    refine ⟨?_, ?_, hc.registration_settled, ?_, ?_⟩ <;> dsimp only [confirmed, hostConfirmed, if_true]
    · by_cases hs : c.registrationDeletedAt.isSome = true
      · simp [hs, hc.registration_settled hs]
      · simp [hs]
    · intro _
      rfl
    · exact joined_one.1
    · simpa using failed_of_other hc (.inr rfl)
  | false =>
    refine ⟨?_, hc.host_settled, ?_, ?_, ?_⟩ <;> dsimp only [confirmed, registrationConfirmed]
    · by_cases hs : c.hostRemovedAt.isSome = true
      · simp [hs, hc.host_settled hs]
      · simp [hs]
    · intro _
      rfl
    · exact joined_one.2
    · simpa using failed_of_other hc (.inl rfl)

def CleanupOp.explained : CleanupOp → Prop
  | .deferRegistration reason => reason ≠ ""
  | _ => True

theorem coherent_step {c' : CleanupColumns} {op : CleanupOp} {lands done : Bool} (hc : Coherent c)
    (he : op.explained) (h : ColumnStep lands c op c' done) : Coherent c' := by
  cases h with
  | same | lost host hlost h => exact hc
  | hostFailed given reason now hr h => exact coherent_hostFailed hc hr h
  | registrationFailed given reason now hr => exact coherent_registrationFailed hc hr
  | deferred reason now => exact coherent_registrationDeferred hc he
  | cleared => exact coherent_hostCleared hc
  | confirmed host now h => exact coherent_confirmed hc

theorem column_step_monotone {c' : CleanupColumns} {op : CleanupOp} {lands done : Bool}
    (h : ColumnStep lands c op c' done) :
    (c.hostRemovedAt.isSome = true → c'.hostRemovedAt = c.hostRemovedAt) ∧
      c.cleanupAttempts ≤ c'.cleanupAttempts := by
  cases h with
  | same | deferred reason now | cleared | lost host hlost h => exact ⟨fun _ => rfl, le_refl _⟩
  | hostFailed given reason now hr h =>
    refine ⟨fun _ => rfl, ?_⟩
    dsimp only [Store.hostFailed]
    omega
  | registrationFailed given reason now hr =>
    refine ⟨fun _ => rfl, ?_⟩
    dsimp only [Store.registrationFailed]
    omega
  | confirmed host now h =>
    cases host with
    | false => exact ⟨fun _ => rfl, le_refl _⟩
    | true =>
      refine ⟨fun hs => ?_, le_refl _⟩
      rw [stamp, if_pos rfl] at h
      rw [h] at hs
      cases hs

theorem runCleanup_coherent {id : String} {calls : List CleanupCall}
    (hwhy : ∀ x ∈ calls, x.op.explained) (t : List RunnerRow) (r : RunnerRow)
    (hr : rowAt (·.id) id t = some r) (hc : Coherent r.cleanup) :
    ∃ r', rowAt (·.id) id (runCleanup calls t) = some r' ∧ Coherent r'.cleanup := by
  -- by induction on the calls, following the row under `id`
  induction calls generalizing t r with
  | nil => exact ⟨r, hr, hc⟩
  | cons x rest ih =>
    obtain ⟨c', hrow, hstep⟩ := call_row hr
    have hc' : Coherent c' := by
      rcases hstep with ⟨-, rfl⟩ | ⟨-, hstep⟩
      · exact hc
      · exact coherent_step hc (hwhy x List.mem_cons_self) hstep
    apply ih _ _ _ hrow hc'
    intro y hy
    exact hwhy y (List.mem_cons_of_mem _ hy)

/-- The evidence on a row that starts with none is coherent after any calls whose deferrals say why,
and the next call neither clears the host's stamp nor lowers the attempts. -/
theorem cleanup_stays_coherent (id : String) (t : List RunnerRow) (r : RunnerRow)
    (hr : rowAt (·.id) id t = some r) (hnone : r.cleanup = {}) (calls : List CleanupCall)
    (c : CleanupCall) (hwhy : ∀ x ∈ calls ++ [c], x.op.explained) :
    ∃ r₁ r₂, rowAt (·.id) id (runCleanup calls t) = some r₁ ∧
      rowAt (·.id) id (runCleanup (calls ++ [c]) t) = some r₂ ∧
      Coherent r₁.cleanup ∧ Coherent r₂.cleanup ∧ (r₁.cleanup.hostRemovedAt.isSome = true →
        r₂.cleanup.hostRemovedAt = r₁.cleanup.hostRemovedAt) ∧
      r₁.cleanup.cleanupAttempts ≤ r₂.cleanup.cleanupAttempts := by
  have hstart : Coherent r.cleanup := by
    rw [hnone]
    exact coherent_none
  obtain ⟨r₁, hr₁, hc₁⟩ := runCleanup_coherent
    (fun x hx => hwhy x (List.mem_append_left _ hx)) t r hr hstart
  have hlast : runCleanup (calls ++ [c]) t = (c.apply (runCleanup calls t)).1 := by
    rw [runCleanup, List.foldl_append]
    rfl
  obtain ⟨c', hrow, hstep⟩ := call_row hr₁
  refine ⟨r₁, { r₁ with cleanup := c' }, hr₁, ?_, hc₁, ?_⟩
  · rw [hlast]
    exact hrow
  rcases hstep with ⟨-, rfl⟩ | ⟨-, hstep⟩
  · exact ⟨hc₁, fun _ => rfl, le_refl _⟩
  have hc₂ := coherent_step hc₁ (hwhy c (List.mem_append_right _ List.mem_cons_self)) hstep
  exact ⟨hc₂, column_step_monotone hstep⟩

def hostRetried : List CleanupCall :=
  [⟨"run_1", .hostFailure "", unixEpoch + second, {}⟩,
    ⟨"run_1", .confirm false, unixEpoch + 2 * second, {}⟩,
    ⟨"run_1", .confirm true, unixEpoch + 3 * second, {}⟩]

theorem cleanup_stays_coherent_hostRetried :
    ∃ r₁ r₂, rowAt (·.id) "run_1" (runCleanup hostRetried [{ id := "run_1" }]) = some r₁ ∧
      rowAt (·.id) "run_1" (runCleanup (hostRetried ++
        [⟨"run_1", .deferRegistration "still busy", unixEpoch + 4 * second, {}⟩])
        [{ id := "run_1" }]) = some r₂ ∧
      Coherent r₁.cleanup ∧ Coherent r₂.cleanup ∧ (r₁.cleanup.hostRemovedAt.isSome = true →
        r₂.cleanup.hostRemovedAt = r₁.cleanup.hostRemovedAt) ∧
      r₁.cleanup.cleanupAttempts ≤ r₂.cleanup.cleanupAttempts := by
  apply cleanup_stays_coherent "run_1" [{ id := "run_1" }] { id := "run_1" } rfl rfl
  simp [hostRetried, CleanupOp.explained]

/-- A deferral without a reason is a failure with no error, or leaves a separator behind. -/
theorem unexplained_deferral : (rowAt (·.id) "run_1" (runCleanup
        [⟨"run_1", .deferRegistration "", unixEpoch + second, {}⟩] [{ id := "run_1" }])).map
        (fun r => (r.cleanup.cleanupFailedAt, r.cleanup.hostCleanupError,
          r.cleanup.registrationCleanupError)) = some (some 1000, "", "") ∧
      (rowAt (·.id) "run_1" (runCleanup
        [⟨"run_1", .hostFailure "no daemon", unixEpoch + second, {}⟩,
          ⟨"run_1", .deferRegistration "", unixEpoch + 2 * second, {}⟩] [{ id := "run_1" }])).map
        (fun r => (r.cleanup.cleanupError, r.cleanup.hostCleanupError,
          r.cleanup.registrationCleanupError)) = some ("no daemon; ", "no daemon", "") := by
  decide +kernel

end Zoomies.Store

namespace Zoomies.Store
open Zoomies.Go

structure Settled (c : CleanupColumns) : Prop where
  host : c.hostRemovedAt.isSome = true
  registration : c.registrationDeletedAt.isSome = true
  cleaned : c.cleanedUpAt.isSome = true
  quiet : c.registrationCleanupError = ""

def CleanupOp.reopens : CleanupOp → Bool
  | .registrationFailure _ | .deferRegistration _ => true
  | _ => false

/-- A confirmation that answers true and lands leaves the row settled. -/
theorem settled_of_done {c c' : CleanupColumns} {op : CleanupOp} {lands : Bool}
    (hland : ∀ host, op = .confirm host → lands = true) (h : ColumnStep lands c op c' true) :
    Settled c' := by
  generalize hd : true = done at h
  cases h with
  | confirmed host now h =>
    cases host with
    | true =>
      by_cases hs : c.registrationDeletedAt.isSome = true ∧ c.registrationCleanupError = ""
      · constructor <;> simp [Store.confirmed, hostConfirmed, hs]
      · simp [Store.confirmed, hostConfirmed, hs] at hd
    | false =>
      by_cases hs : c.hostRemovedAt.isSome = true ∧ c.hostCleanupError = ""
      · constructor <;> simp [Store.confirmed, registrationConfirmed, hs]
      · simp [Store.confirmed, registrationConfirmed, hs] at hd
  | lost host hlost h => exact absurd (hland host rfl) (by rw [hlost]; exact Bool.false_ne_true)
  | _ => cases hd

/-- A settled row stays settled, and no confirmation of it answers true again. -/
theorem settled_step {c c' : CleanupColumns} {op : CleanupOp} {lands done : Bool} (hs : Settled c)
    (hop : op.reopens = false) (h : ColumnStep lands c op c' done) : Settled c' ∧ done = false := by
  cases h with
  | same => exact ⟨hs, rfl⟩
  | hostFailed given reason now hr h =>
    have hhost := hs.host
    rw [h] at hhost
    cases hhost
  | registrationFailed given reason now hr | deferred reason now => cases hop
  | cleared =>
    refine ⟨⟨hs.host, hs.registration, ?_, hs.quiet⟩, rfl⟩
    dsimp only [hostCleared]
    rw [if_pos hs.quiet]
    exact hs.cleaned
  | confirmed host now h | lost host hlost h =>
    -- both stamps are set, so the statement matches no row
    have hset : (stamp host c).isSome = true := by
      cases host with
      | true => exact hs.host
      | false => exact hs.registration
    rw [h] at hset
    cases hset

def completions (id : String) : List CleanupCall → List RunnerRow → Nat
  | [], _ => 0
  | c :: rest, t =>
    (if c.id = id ∧ (c.apply t).2 = true then 1 else 0) + completions id rest (c.apply t).1

def noReopening (id : String) : List CleanupCall → List RunnerRow → Bool
  | [], _ => true
  | c :: rest, t =>
    !(c.id == id && c.op.reopens &&
        (rowAt (·.id) id t).any fun r => r.cleanup.cleanedUpAt.isSome) &&
      noReopening id rest (c.apply t).1

theorem completions_settled {id : String} {calls : List CleanupCall} (t : List RunnerRow)
    (r : RunnerRow) (hr : rowAt (·.id) id t = some r) (hs : Settled r.cleanup)
    (hno : noReopening id calls t = true) : completions id calls t = 0 := by
  induction calls generalizing t r with
  | nil => rfl
  | cons c rest ih =>
    rw [noReopening, Bool.and_eq_true, Bool.not_eq_true'] at hno
    obtain ⟨c', hrow, hstep⟩ := call_row hr
    have hnext : Settled c' ∧ ¬(c.id = id ∧ (c.apply t).2 = true) := by
      rcases hstep with ⟨hne, rfl⟩ | ⟨he, hstep⟩
      · exact ⟨hs, fun h => hne h.1.symm⟩
      have hop : c.op.reopens = false := by
        have hcond := hno.1
        rw [hr, Option.any_some, hs.cleaned, ← he, beq_self_eq_true] at hcond
        simpa using hcond
      obtain ⟨hs', hdone⟩ := settled_step hs hop hstep
      refine ⟨hs', fun h => ?_⟩
      rw [hdone] at h
      cases h.2
    rw [completions, if_neg hnext.2, Nat.zero_add]
    exact ih _ _ hrow hnext.1 hno.2

theorem apply_no_row {c : CleanupCall} {t : List RunnerRow}
    (h : rowAt (·.id) c.id t = none) : (c.apply t).2 = false := by
  unfold CleanupCall.apply
  cases c.op with
  | confirm host =>
    have hbody : (confirmBody c.driver c.now c.id host t).1 = false := by
      rcases confirmBody_cases with ⟨hfalse, -⟩ | ⟨r, hr, -⟩
      · exact hfalse
      · rw [h] at hr
        cases hr
    dsimp only [confirmRunnerCleanup]
    rw [hbody, Bool.and_false]
  | _ => rfl

/-- A cleanup is counted once, in any order of calls, as long as none reopens the registration's
side after it was complete and the writes of a confirmation land. -/
theorem completions_le_one (id : String) (calls : List CleanupCall) (t : List RunnerRow)
    (hno : noReopening id calls t = true)
    (hland : ∀ c ∈ calls, c.id = id → ∀ host, c.op = .confirm host → c.driver.lands = true) :
    completions id calls t ≤ 1 := by
  -- until the first answer true nothing is known of the row; after it the row is settled
  induction calls generalizing t with
  | nil => exact Nat.zero_le 1
  | cons c rest ih =>
    have hrest : noReopening id rest (c.apply t).1 = true := by
      rw [noReopening, Bool.and_eq_true] at hno
      exact hno.2
    rw [completions]
    split
    · rename_i hdone
      cases hr : rowAt (fun x : RunnerRow => x.id) id t with
      | none =>
        rw [← hdone.1] at hr
        rw [apply_no_row hr] at hdone
        cases hdone.2
      | some r =>
        obtain ⟨c', hrow, ⟨hne, -⟩ | ⟨-, hstep⟩⟩ := call_row hr
        · exact absurd hdone.1.symm hne
        rw [hdone.2] at hstep
        have hs := settled_of_done (hland c List.mem_cons_self hdone.1) hstep
        rw [completions_settled _ _ hrow hs hrest]
    · rw [Nat.zero_add]
      exact ih _ hrest fun x hx => hland x (List.mem_cons_of_mem _ hx)

def lateFailure : List CleanupCall :=
  [⟨"run_1", .confirm true, unixEpoch + second, {}⟩,
    ⟨"run_1", .confirm false, unixEpoch + 2 * second, {}⟩,
    ⟨"run_1", .registrationFailure "502 Bad Gateway", unixEpoch + 3 * second, {}⟩,
    ⟨"run_1", .confirm false, unixEpoch + 4 * second, {}⟩]

def lostCommit : List CleanupCall :=
  [⟨"run_1", .confirm true, unixEpoch + second, {}⟩,
    ⟨"run_1", .confirm false, unixEpoch + 2 * second, { commitError := some "disk full" }⟩,
    ⟨"run_1", .confirm false, unixEpoch + 3 * second, {}⟩]

theorem completions_hostRetried : noReopening "run_1" hostRetried [{ id := "run_1" }] = true ∧
    completions "run_1" hostRetried [{ id := "run_1" }] ≤ 1 :=
  ⟨by decide +kernel, completions_le_one "run_1" hostRetried [{ id := "run_1" }]
    (by decide +kernel) (by decide +kernel)⟩

/-- A late failure reopens a finished cleanup, and a confirmation whose commit fails answers true for
nothing: either way a second confirmation answers true. -/
theorem completions_lateFailure : completions "run_1" lateFailure [{ id := "run_1" }] = 2 ∧
      noReopening "run_1" lateFailure [{ id := "run_1" }] = false ∧
      completions "run_1" lostCommit [{ id := "run_1" }] = 2 ∧
      noReopening "run_1" lostCommit [{ id := "run_1" }] = true := by
  decide +kernel

end Zoomies.Store
