import Zoomies.GoFormat
import Mathlib.Data.Prod.Lex
import Mathlib.Data.String.Basic

/-! How one build stands to another, by three numbers and what follows the first hyphen or plus. -/
namespace Zoomies.Version
open Zoomies.Go

inductive Skew where
  | none | behind | ahead | differs
deriving DecidableEq, Repr

def isDigit (c : Char) : Bool := '0' ≤ c && c ≤ '9'

def isHex (c : Char) : Bool := isDigit c || ('a' ≤ c && c ≤ 'f')

def digits (l : List Char) : Bool := !l.isEmpty && l.all isDigit

def digitsValue (l : List Char) : Int := l.foldl (fun n c => 10 * n + (c.toNat - '0'.toNat : Nat)) 0

def atoi : List Char → Option Int
  | '-' :: l => if digits l && digitsValue l ≤ maxInt + 1 then some (-digitsValue l) else none
  | '+' :: l => if digits l && digitsValue l ≤ maxInt then some (digitsValue l) else none
  | l => if digits l && digitsValue l ≤ maxInt then some (digitsValue l) else none

def trimV : List Char → List Char
  | 'v' :: l => l
  | l => l

structure Numbered where
  major : Int := 0
  minor : Int := 0
  patch : Int := 0
  pre : String := ""
deriving DecidableEq, Repr

def parsePart (field : List Char) : Option Int := (atoi field).filter fun n => !decide (n < 0)

def parseParts (pre : String) : List (List Char) → Option Numbered
  | [a] => do
    let major ← parsePart a
    return { major, pre }
  | [a, b] => do
    let major ← parsePart a
    let minor ← parsePart b
    return { major, minor, pre }
  | [a, b, c] => do
    let major ← parsePart a
    let minor ← parsePart b
    let patch ← parsePart c
    return { major, minor, patch, pre }
  | _ => none

def marksPre (c : Char) : Bool := c == '-' || c == '+'

variable (a b s : String)

def parseRelease : Option Numbered :=
  let l := trimV (trimSpace s).toList
  if l = [] then none
  else
    let pre := String.ofList ((l.dropWhile fun c => !marksPre c).drop 1)
    parseParts pre ((l.takeWhile fun c => !marksPre c).splitOn '.')

def comparePre : Skew :=
  if a = b then .none
  else if a = "" then .ahead
  else if b = "" then .behind
  else if a < b then .behind
  else .ahead

def compareParts : List (Int × Int) → Skew → Skew
  | [], same => same
  | (a, b) :: rest, same =>
    if a < b then .behind else if a > b then .ahead else compareParts rest same

def compareNumbered (a b : Numbered) : Skew :=
  compareParts [(a.major, b.major), (a.minor, b.minor), (a.patch, b.patch)] (comparePre a.pre b.pre)

def compareBuilds : Skew :=
  let a := trimSpace a
  let b := trimSpace b
  if a = "" || b = "" || a = b then .none
  else
    match parseRelease a, parseRelease b with
    | some na, some nb => compareNumbered na nb
    | _, _ => .differs

def releaseLike : Bool :=
  let l := trimV s.toList
  match l.dropWhile isDigit with
  | '.' :: c :: _ => !(l.takeWhile isDigit).isEmpty && isDigit c
  | _ => false

def beforeDirty (l : List Char) : List Char :=
  if "-dirty".toList.reverse.isPrefixOf l then l.drop 6 else l

def describeSuffix : Bool :=
  let l := beforeDirty s.toList.reverse
  match l.dropWhile isHex with
  | 'g' :: '-' :: rest =>
    decide (7 ≤ (l.takeWhile isHex).length) && !(rest.takeWhile isDigit).isEmpty &&
      (rest.dropWhile isDigit).head? == some '-'
  | _ => false

def mainBuild : Bool :=
  match "main-sha-".toList.isPrefixOf? s.toList with
  | some l => decide (7 ≤ l.length) && l.all isHex
  | none => false

def isMainBuild (v : String) : Bool := mainBuild (trimSpace v)

def release (v : String) : Option String :=
  let v := trimSpace v
  if v = "" || !releaseLike v || describeSuffix v then none
  else some (String.ofList (trimV v.toList))

def preKey (pre : String) : WithTop String := if pre = "" then ⊤ else (pre : WithTop String)

def Numbered.key (n : Numbered) : Int ×ₗ Int ×ₗ Int ×ₗ WithTop String :=
  toLex (n.major, toLex (n.minor, toLex (n.patch, preKey n.pre)))

def Earlier : Prop :=
  ∃ x y, parseRelease (trimSpace a) = some x ∧ parseRelease (trimSpace b) = some y ∧ x.key < y.key

def SameRelease : Prop :=
  trimSpace a = trimSpace b ∨
    ∃ x, parseRelease (trimSpace a) = some x ∧ parseRelease (trimSpace b) = some x

theorem comparePre_none_iff : comparePre a b = .none ↔ a = b := by
  unfold comparePre
  split_ifs with hab <;> simp [hab]

theorem comparePre_behind_iff : comparePre a b = .behind ↔ preKey a < preKey b := by
  unfold comparePre preKey
  by_cases hab : a = b
  · subst hab
    simp
  by_cases ha : a = ""
  · have hb : b ≠ "" := fun hb => hab (ha.trans hb.symm)
    simp [ha, hb]
  by_cases hb : b = ""
  · simp [ha, hb, WithTop.coe_lt_top]
  by_cases hlt : a < b
  · simp [hab, ha, hb, hlt]
  · simp [hab, ha, hb, hlt]

theorem compareParts_none_iff (l : List (Int × Int)) (same : Skew) :
    compareParts l same = .none ↔ (∀ p ∈ l, p.1 = p.2) ∧ same = .none := by
  induction l with
  | nil => simp [compareParts]
  | cons p rest ih =>
    obtain ⟨a, b⟩ := p
    rw [compareParts, List.forall_mem_cons]
    split_ifs with hlt hgt
    · constructor
      · intro h
        cases h
      · rintro ⟨⟨h, -⟩, -⟩
        exact absurd h hlt.ne
    · constructor
      · intro h
        cases h
      · rintro ⟨⟨h, -⟩, -⟩
        exact absurd h hgt.ne'
    rw [ih]
    have hab : a = b := le_antisymm (not_lt.mp hgt) (not_lt.mp hlt)
    simp [hab]

theorem compareParts_cons_behind_iff (a b : Int) (rest : List (Int × Int)) (same : Skew) :
    compareParts ((a, b) :: rest) same = .behind ↔
      a < b ∨ a = b ∧ compareParts rest same = .behind := by
  rw [compareParts]
  split_ifs with hlt hgt
  · simp [hlt]
  · simp [hlt, hgt.ne']
  · have hab : a = b := le_antisymm (not_lt.mp hgt) (not_lt.mp hlt)
    simp [hab]

theorem compareNumbered_none_iff (a b : Numbered) : compareNumbered a b = .none ↔ a = b := by
  rw [compareNumbered, compareParts_none_iff, comparePre_none_iff]
  cases a
  cases b
  simp [and_assoc]

theorem compareNumbered_behind_iff {a b : Numbered} :
    compareNumbered a b = .behind ↔ a.key < b.key := by
  rw [compareNumbered, compareParts_cons_behind_iff, compareParts_cons_behind_iff,
    compareParts_cons_behind_iff, compareParts, comparePre_behind_iff, Numbered.key, Numbered.key,
    Prod.Lex.toLex_lt_toLex, Prod.Lex.toLex_lt_toLex, Prod.Lex.toLex_lt_toLex]

theorem compareBuilds_behind_iff {a b : String} : compareBuilds a b = .behind ↔ Earlier a b := by
  have hempty : parseRelease "" = none := by decide
  constructor
  · intro h
    unfold compareBuilds at h
    dsimp only at h
    split_ifs at h
    split at h
    · next x y hx hy => exact ⟨x, y, hx, hy, compareNumbered_behind_iff.mp h⟩
    · cases h
  · rintro ⟨x, y, hx, hy, hlt⟩
    have ha : trimSpace a ≠ "" := fun h => by rw [h, hempty] at hx; cases hx
    have hb : trimSpace b ≠ "" := fun h => by rw [h, hempty] at hy; cases hy
    have hab : trimSpace a ≠ trimSpace b := by
      intro h
      rw [h, hy] at hx
      cases hx
      exact lt_irrefl _ hlt
    simp [compareBuilds, ha, hb, hab, hx, hy, compareNumbered_behind_iff.mpr hlt]

theorem compareBuilds_none_iff {a b : String} :
    compareBuilds a b = .none ↔ trimSpace a = "" ∨ trimSpace b = "" ∨ SameRelease a b := by
  unfold compareBuilds
  dsimp only
  by_cases hsame : (trimSpace a = "" || trimSpace b = "" || trimSpace a = trimSpace b) = true
  · rw [if_pos hsame]
    simp only [Bool.or_eq_true, decide_eq_true_eq, or_assoc] at hsame
    refine iff_of_true rfl ?_
    rcases hsame with h | h | h
    · exact .inl h
    · exact .inr (.inl h)
    · exact .inr (.inr (.inl h))
  · rw [if_neg hsame]
    simp only [Bool.or_eq_true, decide_eq_true_eq, not_or] at hsame
    obtain ⟨⟨ha, hb⟩, hab⟩ := hsame
    split
    · next x y hx hy =>
      rw [compareNumbered_none_iff]
      simp [SameRelease, ha, hb, hab, hx, hy, eq_comm]
    next hno =>
    constructor
    · intro h
      cases h
    rintro (h | h | h | ⟨x, hx, hy⟩)
    · exact absurd h ha
    · exact absurd h hb
    · exact absurd h hab
    · exact absurd hy (hno x x hx)

variable {a b : String}

theorem SameRelease.symm (h : SameRelease a b) : SameRelease b a := by
  rcases h with h | ⟨x, ha, hb⟩
  · exact .inl h.symm
  · exact .inr ⟨x, hb, ha⟩

theorem SameRelease.trans {c : String} (h : SameRelease a b) (k : SameRelease b c) :
    SameRelease a c := by
  rcases h with h | ⟨x, ha, hb⟩
  · unfold SameRelease
    rw [h]
    exact k
  rcases k with k | ⟨y, hb', hc⟩
  · exact .inr ⟨x, ha, k ▸ hb⟩
  rw [hb] at hb'
  cases hb'
  exact .inr ⟨x, ha, hc⟩

theorem compareBuilds_none_of_sameRelease {c : String} (hb : trimSpace b ≠ "")
    (hab : compareBuilds a b = .none) (hbc : SameRelease b c) : compareBuilds a c = .none := by
  rw [compareBuilds_none_iff] at hab ⊢
  rcases hab with h | h | h
  · exact .inl h
  · exact absurd h hb
  · exact .inr (.inr (h.trans hbc))

end Zoomies.Version
