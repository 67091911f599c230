import Mathlib.Data.Rat.Floor

/-! The Go values the program computes with. CPU figures are rationals, sizes and counts integers,
and text a list of characters, lowered as Unicode 14 has it. -/
namespace Zoomies.Go

abbrev Time := Int

abbrev Duration := Int

def maxInt : Int := 9223372036854775807

def second : Duration := 1000000000

def minute : Duration := 60 * second

def hour : Duration := 60 * minute

def sub (t u : Time) : Duration := max (-maxInt - 1) (min maxInt (t - u))

def truncate (q : ℚ) : Int := if 0 ≤ q then ⌊q⌋ else ⌈q⌉

def isSpace (c : Char) : Bool :=
  c == ' ' || c == '\t' || c == '\n' || c == '\r' || c == '\x0b' || c == '\x0c' ||
    c == '\u0085' || c == '\u00a0' || c == '\u1680' || ('\u2000' ≤ c && c ≤ '\u200a') ||
    c == '\u2028' || c == '\u2029' || c == '\u202f' || c == '\u205f' || c == '\u3000'

def trimSpace (s : String) : String :=
  String.ofList ((s.toList.dropWhile isSpace).reverse.dropWhile isSpace).reverse

def lowerRanges : List (Int × List (Nat × Nat)) :=
  -- what is added to a letter to lower it, and the letters: every second one where that is 1
  [(32, [(192, 214), (216, 222), (913, 929), (931, 939), (1040, 1071), (65313, 65338), (71840,
   71871), (93760, 93791)]), (1, [(256, 302), (306, 310), (313, 327), (330, 374), (377, 381), (386,
   388), (391, 391), (395, 395), (401, 401), (408, 408), (416, 420), (423, 423), (428, 428), (431,
   431), (435, 437), (440, 440), (444, 444), (453, 453), (456, 456), (459, 475), (478, 494), (498,
   500), (504, 542), (546, 562), (571, 571), (577, 577), (582, 590), (880, 882), (886, 886), (984,
   1006), (1015, 1015), (1018, 1018), (1120, 1152), (1162, 1214), (1217, 1229), (1232, 1326),
   (7680, 7828), (7840, 7934), (8579, 8579), (11360, 11360), (11367, 11371), (11378, 11378),
   (11381, 11381), (11392, 11490), (11499, 11501), (11506, 11506), (42560, 42604), (42624, 42650),
   (42786, 42798), (42802, 42862), (42873, 42875), (42878, 42886), (42891, 42891), (42896, 42898),
   (42902, 42920), (42932, 42946), (42951, 42953), (42960, 42960), (42966, 42968), (42997,
   42997)]), (-199, [(304, 304)]), (-121, [(376, 376)]), (210, [(385, 385)]), (206, [(390, 390)]),
   (205, [(393, 394), (403, 403)]), (79, [(398, 398)]), (202, [(399, 399)]), (203, [(400, 400)]),
   (207, [(404, 404)]), (211, [(406, 406), (412, 412)]), (209, [(407, 407)]), (213, [(413, 413)]),
   (214, [(415, 415)]), (218, [(422, 422), (425, 425), (430, 430)]), (217, [(433, 434)]), (219,
   [(439, 439)]), (2, [(452, 452), (455, 455), (458, 458), (497, 497)]), (-97, [(502, 502)]), (-56,
   [(503, 503)]), (-130, [(544, 544), (1021, 1023)]), (10795, [(570, 570)]), (-163, [(573, 573)]),
   (10792, [(574, 574)]), (-195, [(579, 579)]), (69, [(580, 580)]), (71, [(581, 581)]), (116,
   [(895, 895)]), (38, [(902, 902)]), (37, [(904, 906)]), (64, [(908, 908), (68736, 68786)]), (63,
   [(910, 911)]), (8, [(975, 975), (5104, 5109)]), (-60, [(1012, 1012)]), (-7, [(1017, 1017),
   (8172, 8172)]), (80, [(1024, 1039)]), (15, [(1216, 1216)]), (48, [(1329, 1366), (11264,
   11311)]), (7264, [(4256, 4293), (4295, 4295), (4301, 4301)]), (38864, [(5024, 5103)]), (-3008,
   [(7312, 7354), (7357, 7359)]), (-7615, [(7838, 7838)]), (-8, [(7944, 7951), (7960, 7965), (7976,
   7983), (7992, 7999), (8008, 8013), (8025, 8025), (8027, 8027), (8029, 8029), (8031, 8031),
   (8040, 8047), (8072, 8079), (8088, 8095), (8104, 8111), (8120, 8121), (8152, 8153), (8168,
   8169)]), (-74, [(8122, 8123)]), (-9, [(8124, 8124), (8140, 8140), (8188, 8188)]), (-86, [(8136,
   8139)]), (-100, [(8154, 8155)]), (-112, [(8170, 8171)]), (-128, [(8184, 8185)]), (-126, [(8186,
   8187)]), (-7517, [(8486, 8486)]), (-8383, [(8490, 8490)]), (-8262, [(8491, 8491)]), (28, [(8498,
   8498)]), (16, [(8544, 8559)]), (26, [(9398, 9423)]), (-10743, [(11362, 11362)]), (-3814,
   [(11363, 11363)]), (-10727, [(11364, 11364)]), (-10780, [(11373, 11373)]), (-10749, [(11374,
   11374)]), (-10783, [(11375, 11375)]), (-10782, [(11376, 11376)]), (-10815, [(11390, 11391)]),
   (-35332, [(42877, 42877)]), (-42280, [(42893, 42893)]), (-42308, [(42922, 42922), (42926,
   42926)]), (-42319, [(42923, 42923)]), (-42315, [(42924, 42924)]), (-42305, [(42925, 42925)]),
   (-42258, [(42928, 42928)]), (-42282, [(42929, 42929)]), (-42261, [(42930, 42930)]), (928,
   [(42931, 42931)]), (-48, [(42948, 42948)]), (-42307, [(42949, 42949)]), (-35384, [(42950,
   42950)]), (40, [(66560, 66599), (66736, 66771)]), (39, [(66928, 66938), (66940, 66954), (66956,
   66962), (66964, 66965)]), (34, [(125184, 125217)])]

def lowerRune (r : Char) : Char :=
  let n := r.toNat
  if n < 128 then r.toLower
  else
    let among := fun (d : Int) (range : Nat × Nat) =>
      range.1 ≤ n && n ≤ range.2 && (d != 1 || (n - range.1) % 2 == 0)
    match lowerRanges.find? fun e => e.2.any (among e.1) with
    | some e => Char.ofNat (n + e.1).toNat
    | none => r

def toLower (s : String) : String := String.ofList (s.toList.map lowerRune)

example : toLower "ÉCOLE Σ Ж 3" = "école σ ж 3" := by decide +kernel

def join (sep : String) : List String → String
  | [] => ""
  | [s] => s
  | s :: t :: rest => s ++ sep ++ join sep (t :: rest)

theorem append_ne_empty {a : String} {b : String} (ha : a ≠ "") : a ++ b ≠ "" := by
  intro h
  have hl := congrArg String.toList h
  rw [String.toList_append] at hl
  exact ha (String.toList_inj.mp (List.append_eq_nil_iff.mp hl).1)

theorem join_ne_empty (sep : String) {a : String} (rest : List String) (ha : a ≠ "") :
    join sep (a :: rest) ≠ "" := by
  cases rest with
  | nil => exact ha
  | cons b rest => exact append_ne_empty (append_ne_empty ha)

def cut (sep : Char) (s : String) : Option (String × String) :=
  if sep ∈ s.toList then
    some (String.ofList (s.toList.takeWhile (· != sep)),
      String.ofList ((s.toList.dropWhile (· != sep)).drop 1))
  else none

variable {q : ℚ}

theorem truncate_of_nonneg (h : 0 ≤ q) : truncate q = ⌊q⌋ := by
  simp [truncate, h]

theorem truncate_nonneg (h : 0 ≤ q) : 0 ≤ truncate q := by
  rw [truncate_of_nonneg h]
  exact Int.floor_nonneg.mpr h

theorem truncate_nonpos (h : q ≤ 0) : truncate q ≤ 0 := by
  rcases eq_or_lt_of_le h with rfl | hn
  · rw [truncate_of_nonneg le_rfl, Int.floor_zero]
  · simp only [truncate, not_le.mpr hn, ↓reduceIte]
    exact Int.ceil_le.mpr (by exact_mod_cast h)

theorem le_truncate_iff {n : Int} (h : 0 < n) : n ≤ truncate q ↔ (n : ℚ) ≤ q := by
  by_cases hq : 0 ≤ q
  · rw [truncate_of_nonneg hq, Int.le_floor]
  have hneg : q ≤ 0 := (not_le.mp hq).le
  have ht := truncate_nonpos hneg
  have hn : (0 : ℚ) < n := by exact_mod_cast h
  constructor
  · omega
  · intro hle
    exact absurd (hn.trans_le hle).le hq

end Zoomies.Go

namespace Zoomies.Go

def roundHalfEven (q : ℚ) : Int :=
  let below := ⌊q⌋
  if q - below < 1 / 2 then below
  else if q - below > 1 / 2 then below + 1
  else if below % 2 = 0 then below else below + 1

def padded (width n : Nat) : String :=
  let digits := toString n
  String.ofList (List.replicate (width - digits.length) '0') ++ digits

def formatFixed (q : ℚ) (places : Nat) : String :=
  let n := (roundHalfEven (|q| * 10 ^ places)).toNat
  (if q < 0 then "-" else "") ++ toString (n / 10 ^ places) ++
    (if places = 0 then "" else "." ++ padded places (n % 10 ^ places))

def trimRight (c : Char) (s : String) : String :=
  String.ofList (s.toList.reverse.dropWhile (· == c)).reverse

def hasSuffix (s tail : String) : Bool := tail.toList.isSuffixOf s.toList

def dropLast (n : Nat) (s : String) : String := String.ofList (s.toList.take (s.length - n))

def fraction (places n : Nat) : String :=
  let digits := trimRight '0' (padded places (n % 10 ^ places))
  if digits = "" then "" else "." ++ digits

def subSecond (u : Nat) : String :=
  if u < 1000 then toString u ++ "ns"
  else if u < 1000000 then toString (u / 1000) ++ fraction 3 u ++ "µs"
  else toString (u / 1000000) ++ fraction 6 u ++ "ms"

def durationString (d : Duration) : String :=
  let u := d.natAbs
  let sign := if d < 0 then "-" else ""
  if u = 0 then "0s"
  else if u < 1000000000 then sign ++ subSecond u
  else
    let whole := u / 1000000000
    let seconds := toString (whole % 60) ++ fraction 9 u ++ "s"
    let minutes := if whole < 60 then "" else toString (whole / 60 % 60) ++ "m"
    let hours := if whole < 3600 then "" else toString (whole / 3600) ++ "h"
    sign ++ hours ++ minutes ++ seconds

def truncateTo (m d : Duration) : Duration := if m ≤ 0 then d else d - d.tmod m

def roundTo (m d : Duration) : Duration :=
  if m ≤ 0 then d
  else
    let r := (d.natAbs : Int) % m
    if d < 0 then
      if r + r < m then d + r else max (-maxInt - 1) (d - m + r)
    else
      if r + r < m then d - r else min maxInt (d + m - r)

def fields (s : String) : List String :=
  ((s.toList.splitOnP isSpace).filter fun part => !part.isEmpty).map String.ofList

def quoted (s : String) : String :=
  let mark := Char.ofNat 34
  let slash := Char.ofNat 92
  let escaped := s.toList.flatMap fun c => if c == mark || c == slash then [slash, c] else [c]
  String.ofList ([mark] ++ escaped ++ [mark])

def takeBytes : Nat → List Char → List Char
  | _, [] => []
  | n, c :: cs => if c.utf8Size ≤ n then c :: takeBytes (n - c.utf8Size) cs else []

def civilDate (day : Int) : Int × Nat × Nat :=
  -- counted from 1 March of year 0, so that a leap day is the last of its year
  let z := day + 306
  let dayOfEra := (z % 146097).toNat
  let yearOfEra := (dayOfEra - dayOfEra / 1460 + dayOfEra / 36524 - dayOfEra / 146096) / 365
  let dayOfYear := dayOfEra - (365 * yearOfEra + yearOfEra / 4 - yearOfEra / 100)
  let shifted := (5 * dayOfYear + 2) / 153
  let month := if shifted < 10 then shifted + 3 else shifted - 9
  let year := yearOfEra + z / 146097 * 400
  (if month ≤ 2 then year + 1 else year, month, dayOfYear - (153 * shifted + 2) / 5 + 1)

def formatRFC3339 (t : Time) : String :=
  let seconds := t / second
  let date := civilDate (seconds / 86400)
  let inDay := (seconds % 86400).toNat
  (if date.1 < 0 then "-" else "") ++ padded 4 date.1.natAbs ++ "-" ++ padded 2 date.2.1 ++ "-" ++
    padded 2 date.2.2 ++ "T" ++ padded 2 (inDay / 3600) ++ ":" ++ padded 2 (inDay / 60 % 60) ++
    ":" ++ padded 2 (inDay % 60) ++ "Z"

-- 29 February 2024 and 31 December 1999, counted from 1 January of year 1
example : civilDate 738944 = (2024, 2, 29) ∧ civilDate 730118 = (1999, 12, 31) := by decide

end Zoomies.Go
