import Mathlib.Data.List.TakeWhile
import Mathlib.Data.Sum.Order
import Zoomies.VersionOrder

/-! What semantic versioning says of two tags, and where a comparison of text says the same. -/
namespace Zoomies.Version
open Zoomies.Go

variable (s : String) (w : List Char)

def tagText : List Char := trimV (trimSpace s).toList

def splitDots (l : List Char) : List (List Char) := l.splitOn '.'

def preText : Option (List Char) :=
  match (tagText s).dropWhile fun c => !marksPre c with
  | '-' :: rest => some (rest.takeWhile (· != '+'))
  | _ => none

def buildText : Option (List Char) :=
  match (tagText s).dropWhile (· != '+') with
  | _ :: rest => some rest
  | [] => none

def word : Int ⊕ₗ List Char := toLex (.inr w)

def identifier : Int ⊕ₗ List Char :=
  if digits w then toLex (.inl (digitsValue w)) else word w

def PrePrecedes (a b : String) : Prop :=
  -- the identifiers decide one after the other, and a finished release comes after its pre-releases
  match preText a, preText b with
  | some u, some v => (splitDots u).map identifier < (splitDots v).map identifier
  | some _, none => True
  | none, _ => False

def Precedes (a b : String) : Prop :=
  -- Precedence of semantic versions. Build metadata does not count.
  ∃ x y, parseRelease a = some x ∧ parseRelease b = some y ∧
    (x.major < y.major ∨ x.major = y.major ∧ (x.minor < y.minor ∨ x.minor = y.minor ∧
      (x.patch < y.patch ∨ x.patch = y.patch ∧ PrePrecedes a b)))

def leadingZero : Bool := digits w && w.head? == some '0' && w.length != 1

def validWords (u : List Char) : Bool :=
  u.all (fun c => isDigit c || ('a' ≤ c && c ≤ 'z') || ('A' ≤ c && c ≤ 'Z') || c == '-' || c == '.') &&
    (splitDots u).all fun w => !w.isEmpty

def validSemver : Bool :=
  -- a semantic version, with or without a leading `v`; missing numbers are read as zero
  (parseRelease s).isSome &&
    (splitDots ((tagText s).takeWhile fun c => !marksPre c)).all (fun w => !leadingZero w) &&
    (preText s).all (fun u => validWords u && (splitDots u).all fun w => !leadingZero w) &&
    (buildText s).all validWords

def plainTag : Bool :=
  !(tagText s).contains '+' &&
    (preText s).all fun u => !u.contains '-' && (splitDots u).all fun w => !digits w

theorem splitDots_cons (c : Char) (l : List Char) : ∃ w ws, splitDots l = w :: ws ∧
      splitDots (c :: l) = if c = '.' then [] :: w :: ws else (c :: w) :: ws := by
  obtain ⟨w, ws, hw⟩ := List.exists_cons_of_ne_nil (List.splitOnP_ne_nil (· == '.') l)
  refine ⟨w, ws, hw, ?_⟩
  rw [splitDots, List.splitOn, List.splitOnP_cons_eq_if_modifyHead, hw]
  simp

theorem word_lt_word {v w : List Char} : word v < word w ↔ v < w := Sum.Lex.inr_lt_inr_iff

@[simp] theorem word_inj {v w : List Char} : word v = word w ↔ v = w := by simp [word]

/-- No character of the texts sorts before the dot, so their order is that of their words. -/
theorem lt_iff_words_lt {u v : List Char} (hu : ∀ c ∈ u, '.' ≤ c) (hv : ∀ c ∈ v, '.' ≤ c) :
    u < v ↔ (splitDots u).map word < (splitDots v).map word := by
  have hnil : splitDots [] = [[]] := rfl
  induction u generalizing v with
  | nil =>
    cases v with
    | nil => simp
    | cons d v =>
      obtain ⟨w, ws, -, hw⟩ := splitDots_cons d v
      rw [hw]
      split <;> simp [hnil, List.cons_lt_cons_iff, word_lt_word]
  | cons c u ih =>
    obtain ⟨w, ws, hw, hcons⟩ := splitDots_cons c u
    obtain ⟨hc, hu⟩ := List.forall_mem_cons.mp hu
    cases v with
    | nil =>
      rw [hcons]
      split <;> simp [hnil, List.cons_lt_cons_iff, word_lt_word]
    | cons d v =>
      obtain ⟨w', ws', hw', hcons'⟩ := splitDots_cons d v
      obtain ⟨hd, hv⟩ := List.forall_mem_cons.mp hv
      have hrest : u < v ↔ w < w' ∨ w = w' ∧ ws.map word < ws'.map word := by
        refine (ih hu hv).trans ?_
        rw [hw, hw', List.map_cons, List.map_cons, List.cons_lt_cons_iff, word_lt_word, word_inj]
      rw [hcons, hcons', List.cons_lt_cons_iff, hrest]
      by_cases hcd : c = '.'
      · by_cases hdd : d = '.'
        · simp [hcd, hdd, List.cons_lt_cons_iff, word_lt_word]
        · simp [hcd, hdd, List.cons_lt_cons_iff, word_lt_word, lt_of_le_of_ne hd (Ne.symm hdd)]
      by_cases hdd : d = '.'
      · simp [hcd, hdd, List.cons_lt_cons_iff, word_lt_word, hc]
      · simp [hcd, hdd, List.cons_lt_cons_iff, word_lt_word, or_assoc, and_assoc, and_or_left]

section
variable {s : String} {x y : Numbered}

theorem parseParts_pre {pre : String} {fields : List (List Char)}
    (h : parseParts pre fields = some x) : x.pre = pre := by
  unfold parseParts at h
  split at h
  all_goals simp only [Option.bind_eq_bind, Option.bind_eq_some_iff, Option.pure_def,
    Option.some.injEq, reduceCtorEq] at h
  · obtain ⟨_, _, rfl⟩ := h
    rfl
  · obtain ⟨_, _, _, _, rfl⟩ := h
    rfl
  · obtain ⟨_, _, _, _, _, _, rfl⟩ := h
    rfl

theorem preKey_ofList {u : List Char} (h : u ≠ []) :
    preKey (String.ofList u) = (String.ofList u : WithTop String) := by
  rw [preKey, if_neg]
  intro he
  exact h (String.ofList_injective he)

theorem marksPre_of_dropWhile {l rest : List Char} {c : Char}
    (h : l.dropWhile (fun c => !marksPre c) = c :: rest) : c = '-' ∨ c = '+' := by
  have hhead := List.head?_dropWhile_not (fun c => !marksPre c) l
  rw [h] at hhead
  simpa [marksPre, or_iff_not_imp_left] using hhead

/-- What a plain tag's pre-release is to either order. -/
theorem pre_cases (hx : parseRelease s = some x) (hvalid : validSemver s = true)
    (hplain : plainTag s = true) : (preKey x.pre = ⊤ ∧ preText s = none) ∨
      ∃ u, (∀ c ∈ u, '.' ≤ c) ∧ preKey x.pre = (String.ofList u : WithTop String) ∧
        preText s = some u ∧ (splitDots u).map identifier = (splitDots u).map word := by
  have hpre : x.pre = String.ofList (((tagText s).dropWhile fun c => !marksPre c).drop 1) := by
    unfold parseRelease at hx
    dsimp only at hx
    split at hx
    · cases hx
    · exact parseParts_pre hx
  have hsuffix := List.dropWhile_suffix (fun c => !marksPre c) (l := tagText s)
  unfold validSemver at hvalid
  unfold plainTag at hplain
  unfold preText at *
  generalize hmarked : (tagText s).dropWhile (fun c => !marksPre c) = marked at *
  simp only [Bool.and_eq_true, Bool.not_eq_true', List.contains_eq_mem, decide_eq_false_iff_not] at hvalid hplain
  cases marked with
  | nil => exact .inl ⟨by rw [hpre]; rfl, rfl⟩
  | cons c rest =>
    rcases marksPre_of_dropWhile hmarked with rfl | rfl
    · right
      have hplus : rest.takeWhile (· != '+') = rest := by
        refine List.takeWhile_eq_self_iff.mpr fun c hc => bne_iff_ne.mpr ?_
        rintro rfl
        exact hplain.1 (hsuffix.subset (List.mem_cons_of_mem _ hc))
      simp only [hplus, Option.all_some, validWords, Bool.and_eq_true, List.all_eq_true] at hvalid hplain
      obtain ⟨⟨-, ⟨hchars, hwords⟩, -⟩, -⟩ := hvalid
      obtain ⟨-, hhyphen, hnumber⟩ := hplain
      refine ⟨rest, fun c hc => ?_, ?_, congrArg some hplus, ?_⟩
      · have hchar := hchars c hc
        simp only [isDigit, Bool.or_eq_true, Bool.and_eq_true, decide_eq_true_eq, beq_iff_eq] at hchar
        rcases hchar with (((h | h) | h) | rfl) | rfl
        · exact le_trans (by decide) h.1
        · exact le_trans (by decide) h.1
        · exact le_trans (by decide) h.1
        · simp [hc] at hhyphen
        · exact le_rfl
      · rw [hpre]
        refine preKey_ofList ?_
        rintro rfl
        cases hwords [] (List.mem_singleton_self _)
      · refine List.map_congr_left fun w hw => if_neg ?_
        simpa using hnumber w hw
    · exact absurd (hsuffix.subset List.mem_cons_self) hplain.1

variable {t : String} (hx : parseRelease s = some x) (hy : parseRelease t = some y)
  (hs : validSemver s = true) (ht : validSemver t = true) (hsp : plainTag s = true)
  (htp : plainTag t = true)
include hx hy hs ht hsp htp

theorem preKey_lt_iff : preKey x.pre < preKey y.pre ↔ PrePrecedes s t := by
  unfold PrePrecedes
  rcases pre_cases hx hs hsp with ⟨h1, h2⟩ | ⟨u, hu, h1, h2, hwords⟩
  · rw [h1, h2]
    simp
  rcases pre_cases hy ht htp with ⟨h3, h4⟩ | ⟨v, hv, h3, h4, hwords'⟩
  · rw [h1, h2, h3, h4]
    simp [WithTop.coe_lt_top]
  rw [h1, h2, h3, h4, WithTop.coe_lt_coe, String.lt_iff_toList_lt, String.toList_ofList,
    String.toList_ofList, lt_iff_words_lt hu hv]
  dsimp only
  rw [hwords, hwords']

end

def NumbersDiffer (x y : Numbered) : Prop :=
  x.major ≠ y.major ∨ x.minor ≠ y.minor ∨ x.patch ≠ y.patch

def OrderedAsText (a b : String) : Prop :=
  -- the numbers decide, or the bytes after them stand to each other as the identifiers in them do
  ∀ x y, parseRelease a = some x → parseRelease b = some y → NumbersDiffer x y ∨
    (preKey x.pre < preKey y.pre → PrePrecedes a b) ∧
      (preKey y.pre < preKey x.pre → PrePrecedes b a)

section
variable {s t : String} {x y : Numbered} (hx : parseRelease s = some x)
  (hy : parseRelease t = some y)
include hx hy

/-- Both orders go by the numbers first, so they can differ only in what follows equal ones. -/
theorem key_lt_imp_precedes_iff : (x.key < y.key → Precedes s t) ↔
    NumbersDiffer x y ∨ (preKey x.pre < preKey y.pre → PrePrecedes s t) := by
  have hprecedes : Precedes s t ↔ x.major < y.major ∨ x.major = y.major ∧
      (x.minor < y.minor ∨ x.minor = y.minor ∧
        (x.patch < y.patch ∨ x.patch = y.patch ∧ PrePrecedes s t)) := by
    constructor
    · rintro ⟨x', y', hx', hy', h⟩
      rw [hx] at hx'
      rw [hy] at hy'
      cases hx'
      cases hy'
      exact h
    · exact fun h => ⟨x, y, hx, hy, h⟩
  rw [hprecedes, Numbered.key, Numbered.key, Prod.Lex.toLex_lt_toLex, Prod.Lex.toLex_lt_toLex,
    Prod.Lex.toLex_lt_toLex, NumbersDiffer]
  by_cases hmajor : x.major = y.major
  · by_cases hminor : x.minor = y.minor
    · by_cases hpatch : x.patch = y.patch
      · simp [hmajor, hminor, hpatch]
      · simp [hmajor, hminor, hpatch]
    · simp [hmajor, hminor]
  · simp [hmajor]

/-- The two directions together. -/
theorem orderedAsText_iff : OrderedAsText s t ↔
    (x.key < y.key → Precedes s t) ∧ (y.key < x.key → Precedes t s) := by
  have hsymm : NumbersDiffer y x ↔ NumbersDiffer x y := by simp [NumbersDiffer, eq_comm]
  rw [key_lt_imp_precedes_iff hx hy, key_lt_imp_precedes_iff hy hx, hsymm, ← or_and_left]
  constructor
  · intro h
    exact h x y hx hy
  · intro h x' y' hx' hy'
    rw [hx] at hx'
    rw [hy] at hy'
    cases hx'
    cases hy'
    exact h

end

theorem orderedAsText_of_plain {s t : String} (hs : validSemver s = true)
    (ht : validSemver t = true) (hsp : plainTag s = true) (htp : plainTag t = true) :
    OrderedAsText s t := by
  intro x y hx hy
  right
  rw [← preKey_lt_iff hx hy hs ht hsp htp, ← preKey_lt_iff hy hx ht hs htp hsp]
  exact ⟨id, id⟩

def Parses (s : String) : Prop := (parseRelease (trimSpace s)).isSome = true

def numbered (s : { s // Parses s }) : Numbered := (parseRelease (trimSpace s.1)).get s.2

theorem compareBuilds_of_parses (a b : { s // Parses s }) :
    compareBuilds a b = compareNumbered (numbered a) (numbered b) := by
  have hempty (s : { s // Parses s }) : trimSpace s.1 ≠ "" := by
    intro h
    have hs := s.2
    rw [Parses, h] at hs
    revert hs
    decide
  have hparse (s : { s // Parses s }) : parseRelease (trimSpace s.1) = some (numbered s) :=
    (Option.some_get s.2).symm
  unfold compareBuilds
  dsimp only
  by_cases hab : trimSpace a.1 = trimSpace b.1
  · have hsame : numbered a = numbered b :=
      Option.some.inj ((hparse a).symm.trans ((congrArg parseRelease hab).trans (hparse b)))
    simp [hab, (compareNumbered_none_iff _ _).mpr hsame]
  · simp [hab, hempty, hparse]

theorem key_injective : Function.Injective Numbered.key := by
  intro a b h
  have hpre : preKey a.pre = preKey b.pre → a.pre = b.pre := by
    unfold preKey
    split_ifs <;> simp_all
  simp only [Numbered.key, EmbeddingLike.apply_eq_iff_eq, Prod.mk.injEq] at h
  cases a
  cases b
  simp_all

theorem compareParts_ne_differs {l : List (Int × Int)} {same : Skew} (h : same ≠ .differs) :
    compareParts l same ≠ .differs := by
  induction l with
  | nil => exact h
  | cons p l ih =>
    rw [compareParts]
    split_ifs <;> simp_all

theorem compareNumbered_ahead_iff {a b : Numbered} :
    compareNumbered a b = .ahead ↔ b.key < a.key := by
  have hordered : compareNumbered a b ≠ .differs := by
    refine compareParts_ne_differs ?_
    unfold comparePre
    split_ifs <;> simp
  have hsame := compareNumbered_none_iff a b
  have hbehind := compareNumbered_behind_iff (a := a) (b := b)
  rcases lt_trichotomy a.key b.key with h | h | h
  · rw [hbehind.mpr h]
    simp [h.not_gt]
  · rw [hsame.mpr (key_injective h), h]
    simp
  refine iff_of_true ?_ h
  cases hc : compareNumbered a b with
  | ahead => rfl
  | none => exact absurd (congrArg Numbered.key (hsame.mp hc)) h.ne'
  | behind => exact absurd (hbehind.mp hc) h.not_gt
  | differs => exact absurd hc hordered

end Zoomies.Version
