import Zoomies.SchedulerLabels
import Mathlib.Data.String.Basic

/-! Jobs given to pools as if each had been asked about on its own. -/
namespace Zoomies

def uvarint (x : Nat) : List UInt8 :=
  if x < 128 then [UInt8.ofNat x] else UInt8.ofNat (x % 128 + 128) :: uvarint (x / 128)
termination_by x

theorem uvarint_eq (x : Nat) : uvarint x = UInt8.ofNat (if x < 128 then x else x % 128 + 128) ::
    if x < 128 then [] else uvarint (x / 128) := by
  conv_lhs => rw [uvarint]
  split <;> rfl

/-- No encoding starts another, so the number and what follows it can both be read off. -/
theorem uvarint_append_inj {x : Nat} (y : Nat) {rest rest' : List UInt8}
    (h : uvarint x ++ rest = uvarint y ++ rest') : x = y ∧ rest = rest' := by
  induction x using Nat.strongRecOn generalizing y with
  | ind x ih =>
    rw [uvarint_eq x, uvarint_eq y] at h
    obtain ⟨hbyte, htail⟩ := List.cons.inj h
    have hnat : (if x < 128 then x else x % 128 + 128) = if y < 128 then y else y % 128 + 128 := by
      have heq := congrArg UInt8.toNat hbyte
      rw [UInt8.toNat_ofNat', UInt8.toNat_ofNat'] at heq
      split_ifs at heq ⊢ <;> omega
    by_cases hx : x < 128 <;> by_cases hy : y < 128
    · rw [if_pos hx, if_pos hy] at hnat htail
      exact ⟨hnat, htail⟩
    · rw [if_pos hx, if_neg hy] at hnat
      omega
    · rw [if_neg hx, if_pos hy] at hnat
      omega
    rw [if_neg hx, if_neg hy] at hnat htail
    obtain ⟨hdiv, hrest⟩ := ih (x / 128) (by omega) (y / 128) htail
    exact ⟨by omega, hrest⟩

end Zoomies

namespace Zoomies.Scheduler
open Zoomies.Go Zoomies.Store

def bytesOf (s : String) : List UInt8 := s.toByteArray.data.toList

def keyPart (s : String) : List UInt8 := uvarint (bytesOf s).length ++ bytesOf s

def appendClaimKey (key : List UInt8) (names : List String) (j : Job) : List UInt8 :=
  key ++ uvarint names.length ++ names.flatMap keyPart ++ keyPart j.installationID ++
    keyPart (classText j.routedClass) ++ (if j.installationID = "" then keyPart j.repo else [])

def claimBytes (j : Job) : List UInt8 := appendClaimKey [] (normalizeLabels j.labels) j

theorem bytesOf_inj {s t : String} (h : bytesOf s = bytesOf t) : s = t := by
  apply String.toByteArray_inj.mp
  exact ByteArray.ext (Array.toList_inj.mp h)

theorem keyPart_append_inj {s t : String} {rest rest' : List UInt8}
    (h : keyPart s ++ rest = keyPart t ++ rest') : s = t ∧ rest = rest' := by
  rw [keyPart, keyPart, List.append_assoc, List.append_assoc] at h
  obtain ⟨hlen, htail⟩ := uvarint_append_inj _ h
  obtain ⟨hbytes, hrest⟩ := List.append_inj htail hlen
  exact ⟨bytesOf_inj hbytes, hrest⟩

theorem flatMap_keyPart_inj {names names' : List String} (hlen : names.length = names'.length)
    {rest rest' : List UInt8}
    (h : names.flatMap keyPart ++ rest = names'.flatMap keyPart ++ rest') :
    names = names' ∧ rest = rest' := by
  induction names generalizing names' with
  | nil =>
    cases names' with
    | nil => exact ⟨rfl, h⟩
    | cons l names' => cases hlen
  | cons l names ih =>
    cases names' with
    | nil => cases hlen
    | cons l' names' =>
      rw [List.flatMap_cons, List.flatMap_cons, List.append_assoc, List.append_assoc] at h
      obtain ⟨rfl, htail⟩ := keyPart_append_inj h
      obtain ⟨rfl, hrest⟩ := ih (Nat.succ.inj hlen) htail
      exact ⟨rfl, hrest⟩

theorem classText_inj {c c' : Option SizeClass} (h : classText c = classText c') : c = c' := by
  rcases c with _ | (_ | _ | _) <;> rcases c' with _ | (_ | _ | _) <;>
    first | rfl | exact absurd h (by decide)

/-- The bytes say no more and no less than the parts, under which `assign` keeps the answers. -/
theorem claimBytes_inj {j j' : Job} : claimBytes j = claimBytes j' ↔ claimKey j = claimKey j' := by
  unfold claimBytes
  constructor
  · intro h
    unfold appendClaimKey at h
    simp only [List.nil_append, List.append_assoc] at h
    obtain ⟨hlen, h⟩ := uvarint_append_inj _ h
    obtain ⟨hnames, h⟩ := flatMap_keyPart_inj hlen h
    obtain ⟨hinst, h⟩ := keyPart_append_inj h
    obtain ⟨hclass, h⟩ := keyPart_append_inj h
    have hrouted := classText_inj hclass
    unfold claimKey
    rw [hnames, hinst, hrouted]
    by_cases hnone : j'.installationID = ""
    · rw [hinst, if_pos hnone, if_pos hnone] at h
      have hrepo := (keyPart_append_inj (congrArg (· ++ ([] : List UInt8)) h)).1
      rw [hrepo]
    · rw [if_neg hnone, if_neg hnone]
  · intro h
    injection h with hnames hinst hrouted hrepo
    unfold appendClaimKey
    rw [hnames, hinst, hrouted]
    rw [hinst] at hrepo
    by_cases hnone : j'.installationID = ""
    · rw [if_pos hnone, if_pos hnone] at hrepo
      rw [Option.some.inj hrepo]
    · rw [if_neg hnone, if_neg hnone]

section
variable (pools : List Pool) (targets : String → String)

/-- Nothing else of a job is read on the way to its pool. -/
theorem bestOf_of_claimKey {j j' : Job} (h : claimKey j = claimKey j') :
    bestOf pools j targets = bestOf pools j' targets := by
  injection h with hnames hinst hrouted hrepo
  have hless : lessPoolFor j = lessPoolFor j' := by
    funext a b
    rw [lessPoolFor, lessPoolFor, hrouted]
  have hrefusal : ∀ p, refusalBeforeLabels p j = refusalBeforeLabels p j' := fun p => by
    rw [refusalBeforeLabels, refusalBeforeLabels, hinst]
  unfold bestOf
  simp only [hnames, hless, hrefusal, hinst] at hrepo ⊢
  by_cases hnone : j'.installationID = ""
  · rw [if_pos hnone, if_pos hnone] at hrepo
    rw [Option.some.inj hrepo]
  · simp only [if_neg hnone]

def demandFor (id : String) (l : List Job) : List Job :=
  l.filter fun j => waitingJob j && ((bestOf pools j targets).pool.map Pool.id == some id)

def unclaimed (l : List Job) : List UnmatchedJob :=
  (l.filter fun j => waitingJob j && (bestOf pools j targets).pool.isNone).map fun j =>
    ⟨j, (bestOf pools j targets).reason⟩

def RightAnswers (a : Assignment) : Prop :=
  ∀ j c, a.answers.lookup (claimKey j) = some c → c = bestOf pools j targets

variable {a : Assignment} (h : RightAnswers pools targets a)
include h

variable {pools targets}

theorem claim_right {j : Job} : (a.claim pools targets j).1 = bestOf pools j targets ∧
    RightAnswers pools targets (a.claim pools targets j).2 ∧
    (a.claim pools targets j).2.demand = a.demand ∧
    (a.claim pools targets j).2.unmatched = a.unmatched := by
  unfold Assignment.claim
  split
  · rename_i c hc
    exact ⟨h j c hc, h, rfl, rfl⟩
  refine ⟨rfl, fun j' c hc => ?_, rfl, rfl⟩
  rw [List.lookup_cons] at hc
  split at hc
  · rename_i hkey
    rw [← Option.some.inj hc, bestOf_of_claimKey pools targets (beq_iff_eq.mp hkey)]
  · exact h j' c hc

theorem step_assigns {j : Job} : RightAnswers pools targets (a.step pools targets j) ∧
    (∀ id, (a.step pools targets j).demand id = a.demand id ++ demandFor pools targets id [j]) ∧
    (a.step pools targets j).unmatched = a.unmatched ++ unclaimed pools targets [j] := by
  obtain ⟨hclaim, hright, hdemand, hunmatched⟩ := claim_right h
  unfold Assignment.step demandFor unclaimed
  cases hw : waitingJob j with
  | false => simp [hw, h]
  | true =>
    dsimp only
    rw [hclaim]
    cases hpool : (bestOf pools j targets).pool with
    | none =>
      refine ⟨hright, fun id => ?_, ?_⟩
      · simp [hw, hpool, hdemand]
      · simp [hw, hpool, hunmatched]
    | some p =>
      refine ⟨hright, fun id => ?_, ?_⟩
      · by_cases hid : p.id = id
        · subst hid
          simp [hw, hpool, hdemand]
        · simp [hw, hpool, hdemand, hid, Function.update_of_ne (Ne.symm hid)]
      · simp [hw, hpool, hunmatched]

theorem foldl_assigns {l : List Job} :
    (∀ id, (l.foldl (Assignment.step pools targets) a).demand id =
        a.demand id ++ demandFor pools targets id l) ∧
      (l.foldl (Assignment.step pools targets) a).unmatched =
        a.unmatched ++ unclaimed pools targets l := by
  induction l generalizing a with
  | nil => exact ⟨fun id => (List.append_nil _).symm, (List.append_nil _).symm⟩
  | cons j l ih =>
    obtain ⟨hright, hdemand, hunmatched⟩ := step_assigns h
    obtain ⟨hl, hl'⟩ := ih hright
    refine ⟨fun id => ?_, ?_⟩
    · rw [List.foldl_cons, hl, hdemand, List.append_assoc, demandFor, demandFor, ← List.filter_append]
      rfl
    rw [List.foldl_cons, hl', hunmatched, List.append_assoc, unclaimed, unclaimed,
      ← List.map_append, ← List.filter_append]
    rfl

end

/-- Keeping the answers changes none: each waiting job is where its own answer puts it, in order,
and the same bytes always mean the same answer. -/
theorem assign_as_asked (pools : List Pool) (jobs : List Job) (targets : String → String) :
    (∀ id, (assign pools jobs targets).demand id = demandFor pools targets id (sortedJobs jobs)) ∧
    (assign pools jobs targets).unmatched = unclaimed pools targets (sortedJobs jobs) ∧
    (sortedJobs jobs).Perm jobs ∧
    ∀ j j', (claimBytes j = claimBytes j' ↔ claimKey j = claimKey j') ∧
      (claimBytes j = claimBytes j' → bestOf pools j targets = bestOf pools j' targets) := by
  have hnew : RightAnswers pools targets {} := fun j c hc => by cases hc
  obtain ⟨hdemand, hunmatched⟩ := foldl_assigns hnew
  refine ⟨hdemand, hunmatched, sortStableFunc_perm, fun j j' => ⟨claimBytes_inj, ?_⟩⟩
  intro hbytes
  exact bestOf_of_claimKey pools targets (claimBytes_inj.mp hbytes)

end Zoomies.Scheduler
