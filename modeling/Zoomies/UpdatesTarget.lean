import Mathlib.Data.List.TakeWhile
import Zoomies.VersionOrder

/-! The releases an update could take, and the target a host follows. -/
namespace Zoomies.Updates
open Zoomies.Go Zoomies.Version List

structure Release where
  tag : String
  url : String
  /-- Zero when no date was given. -/
  publishedAt : Time
  prerelease : Bool
  draft : Bool
  assets : List String
deriving DecidableEq, Repr

def validTag (tag : String) : Bool :=
  match tag.toList with
  | 'v' :: l =>
    match l.splitOn '.' with
    | [a, b, c] => digits a && digits b && digits c
    | _ => false
  | _ => false

def targetTag (running : String) : Option String :=
  match release running with
  | none => none
  | some r => if validTag ("v" ++ r) then some ("v" ++ r) else none

def validTarget (target : String) : Bool := validTag target || isMainBuild target

def hostTarget (running : String) : Option String :=
  match targetTag running with
  | some tag => some tag
  | none => if isMainBuild (trimSpace running) then some (trimSpace running) else none

def compareTargets (a b : String) : Skew :=
  if isMainBuild a || isMainBuild b then
    if trimSpace a = trimSpace b then .none else .differs
  else compareBuilds a b

def hostSkew (hostVersion target : String) : Skew :=
  if !isMainBuild target then
    if (targetTag hostVersion).isNone then .differs else compareBuilds hostVersion target
  else
    let hostVersion := trimSpace hostVersion
    if hostVersion = trimSpace target then .none
    else if isMainBuild hostVersion then .behind
    else if (targetTag hostVersion).isSome then .behind
    else .differs

def checksumsAsset : String := "checksums.txt"

variable (r : Release) (goos goarch : String)

def assetName : String :=
  if goos ≠ "linux" ∧ goos ≠ "darwin" then "" else "zoomies_" ++ goos ++ "_" ++ goarch

def Release.complete : Bool :=
  let asset := assetName goos goarch
  asset != "" && r.assets.contains checksumsAsset && r.assets.contains asset

def Release.eligible : Bool :=
  validTag r.tag && !r.prerelease && !r.draft && r.publishedAt != 0 && r.complete goos goarch &&
    compareBuilds r.tag "v0.0.0" != .differs

def Release.supersedes (other : Release) : Bool :=
  match compareBuilds r.tag other.tag with
  | .ahead => true
  | .none => decide (other.publishedAt < r.publishedAt)
  | _ => false

def newer (best : Option Release) (r : Release) : Option Release :=
  if !r.eligible goos goarch then best
  else
    match best with
    | none => some r
    | some b => if r.supersedes b then some r else some b

def newest (releases : List Release) (goos goarch : String) : Option Release :=
  releases.foldl (newer goos goarch) none

def displaced (releases : List Release) (goos goarch : String) (best : Release) (running : String) :
    Option Release :=
  newest (releases.filter fun r => compareBuilds r.tag best.tag == .behind &&
    compareBuilds running r.tag == .behind) goos goarch

theorem newer_eq_some {goos goarch : String} {best : Option Release} {r b : Release}
    (h : newer goos goarch best r = some b) :
    best = some b ∨ b = r ∧ r.eligible goos goarch = true := by
  unfold newer at h
  split_ifs at h with he
  · exact .inl h
  have hr : r.eligible goos goarch = true := by
    rw [Bool.not_eq_true', Bool.not_eq_false] at he
    exact he
  cases best with
  | none =>
    cases h
    exact .inr ⟨rfl, hr⟩
  | some old =>
    dsimp only at h
    split_ifs at h
    · cases h
      exact .inr ⟨rfl, hr⟩
    · exact .inl h

theorem newest_eligible {releases : List Release} {goos goarch : String} {b : Release}
    (h : newest releases goos goarch = some b) : b ∈ releases ∧ b.eligible goos goarch = true := by
  -- over any start, the answer is the start or an eligible release of the list
  have hfold : ∀ (l : List Release) (best : Option Release),
      l.foldl (newer goos goarch) best = some b →
        best = some b ∨ b ∈ l ∧ b.eligible goos goarch = true := by
    intro l
    induction l with
    | nil =>
      intro best hb
      exact .inl hb
    | cons r rest ih =>
      intro best hb
      rcases ih _ hb with hstep | ⟨hmem, he⟩
      · rcases newer_eq_some hstep with hbest | ⟨hbr, he⟩
        · exact .inl hbest
        · subst hbr
          exact .inr ⟨mem_cons_self, he⟩
      · exact .inr ⟨mem_cons_of_mem _ hmem, he⟩
  rcases hfold releases none h with hno | hb
  · cases hno
  · exact hb

theorem trimSpace_ne_empty {s : String} {c : Char} (hc : c ∈ s.toList) (hs : isSpace c = false) :
    trimSpace s ≠ "" := by
  intro h
  have hnil : ((s.toList.dropWhile isSpace).reverse.dropWhile isSpace).reverse = [] := by
    have hl := congrArg String.toList h
    rwa [trimSpace, String.toList_ofList] at hl
  rw [reverse_eq_nil_iff, dropWhile_eq_nil_iff] at hnil
  have hdrop : s.toList.dropWhile isSpace = [] := by
    rw [eq_nil_iff_forall_not_mem]
    intro d hd
    have hne : s.toList.dropWhile isSpace ≠ [] := ne_nil_of_mem hd
    have hhead := head_dropWhile_not isSpace hne
    have hspace := hnil _ (mem_reverse.mpr (head_mem hne))
    rw [hspace] at hhead
    cases hhead
  rw [dropWhile_eq_nil_iff] at hdrop
  rw [hdrop c hc] at hs
  cases hs

variable {tag : String}

theorem trimSpace_ne_empty_of_validTag (h : validTag tag = true) : trimSpace tag ≠ "" := by
  unfold validTag at h
  split at h
  · next l hl => exact trimSpace_ne_empty (by rw [hl]; exact mem_cons_self) (by decide)
  · cases h

theorem trimSpace_ne_empty_of_isMainBuild (h : isMainBuild tag = true) : trimSpace tag ≠ "" := by
  intro hempty
  rw [isMainBuild, hempty] at h
  revert h
  decide

theorem trimSpace_ne_empty_of_validTarget {target : String} (h : validTarget target = true) :
    trimSpace target ≠ "" := by
  rcases Bool.or_eq_true_iff.mp h with h | h
  · exact trimSpace_ne_empty_of_validTag h
  · exact trimSpace_ne_empty_of_isMainBuild h

theorem validTag_of_targetTag {running : String} (h : targetTag running = some tag) :
    validTag tag = true := by
  unfold targetTag at h
  split at h
  · cases h
  split_ifs at h with hv
  cases h
  exact hv

theorem validTarget_of_hostTarget {running : String} (h : hostTarget running = some tag) :
    validTarget tag = true := by
  unfold hostTarget at h
  split at h
  · next t ht =>
    cases h
    exact Bool.or_eq_true_iff.mpr (.inl (validTag_of_targetTag ht))
  split_ifs at h with hm
  cases h
  exact Bool.or_eq_true_iff.mpr (.inr hm)

end Zoomies.Updates

namespace Zoomies.Updates
open Zoomies.Go Zoomies.Version

inductive Mode where
  -- the words of the `updates.mode` setting; a word nothing knows considers no release
  | off | manual | auto | other (word : String)
deriving DecidableEq, Repr

structure ChooseInput where
  mode : Mode
  soak : Duration
  now : Time
  running : String
  releases : List Release
  goos : String
  goarch : String

structure Target where
  release : Release := ⟨"", "", 0, false, false, []⟩
  newer : Bool := false
  replaces : Bool := false
  /-- The end of the soak in auto; zero in manual. -/
  dueAt : Time := 0
  reason : String := ""

def Target.dueBy (t : Target) (now : Time) : Bool := t.newer && !decide (now < t.dueAt)

inductive SpanUnit where
  | lessThanAMinute | minute | hour
deriving DecidableEq, Repr

def SpanUnit.text : SpanUnit → String
  | .lessThanAMinute => ""
  | .minute => "minute"
  | .hour => "hour"

structure Span where
  n : Int := 0
  unit : SpanUnit := .lessThanAMinute

def spanOf (d : Duration) : Span :=
  if d ≥ hour then ⟨d / hour, .hour⟩
  else if d ≥ minute then ⟨d / minute, .minute⟩
  else {}

def Span.text (s : Span) : String :=
  if s.unit = .lessThanAMinute then "less than a minute"
  else if s.n = 1 then "1 " ++ s.unit.text
  else toString s.n ++ " " ++ s.unit.text ++ "s"

def Span.following (s prev : Span) : String :=
  if s.unit ≠ .lessThanAMinute ∧ s.unit = prev.unit ∧ s.n > 1 then toString s.n else s.text

def noReleaseReason (goos goarch : String) : String :=
  let asset := assetName goos goarch
  if asset = "" then
    "Updates are available only on linux and darwin, and this is " ++ goos ++ "/" ++ goarch ++ "."
  else
    "No complete release is available for " ++ goos ++ "/" ++ goarch ++
      ". A complete release has a vX.Y.Z tag and a publication date, is not a draft or a " ++
      "prerelease, and carries " ++ checksumsAsset ++ " and " ++ asset ++ "."

def autoReason (t : Target) (skipped : String) (soak : Duration) (now : Time) : String :=
  let tag := t.release.tag
  let age := sub now t.release.publishedAt
  if age < 0 then
    "Waiting: " ++ tag ++ " is dated in the future, so it does not count as public yet; it can be " ++
      "taken in " ++ (spanOf (sub t.dueAt now)).text ++ "."
  else
    let wait :=
      if soak > 0 then "auto waits for " ++ (spanOf soak).following (spanOf age)
      else "auto does not wait"
    if t.dueBy now then
      "Ready: " ++ tag ++ " has been public for " ++ (spanOf age).text ++ " and " ++ wait ++
        "; it can be taken now."
    else
      let waiting := "Waiting: " ++ tag ++ " has been public for " ++ (spanOf age).text ++ " and " ++
        wait ++ "; it can be taken in " ++ (spanOf (sub t.dueAt now)).text ++ "."
      if skipped = "" then waiting
      else waiting ++ " It replaced " ++ skipped ++
        ", which is skipped, and a newer release would start the wait again."

variable (i : ChooseInput) (best : Release)

def chooseReplacing : Target :=
  { release := best, newer := true, replaces := true,
    reason := "Available: " ++ best.tag ++ " can replace this build, " ++ i.running ++
      ", which is not from a release. A build from main is usually ahead of the newest release, " ++
      "so this may be a step back; it is taken only when someone asks, in manual and in auto." }

def chooseNewer (running : String) : Target :=
  if i.mode = .manual then
    { release := best, newer := true,
      reason := "Available: " ++ best.tag ++ " is newer than the " ++ running ++
        " running now; manual mode waits for someone to update." }
  else
    let t : Target := { release := best, newer := true, dueAt := best.publishedAt + i.soak }
    let skipped := ((displaced i.releases i.goos i.goarch best i.running).map Release.tag).getD ""
    { t with reason := autoReason t skipped i.soak i.now }

def chooseOver (running : String) : Target :=
  match compareBuilds i.running best.tag with
  | .behind => chooseNewer i best running
  | .none =>
    { release := best,
      reason := "Up to date: " ++ best.tag ++ " is the newest release that can be installed." }
  | .ahead =>
    { release := best,
      reason := "Ahead of the newest release that can be installed (" ++ best.tag ++
        "): this build is " ++ running ++ ", and updates never go back." }
  | .differs =>
    { release := best,
      reason := "This build, " ++ running ++ ", cannot be ordered against " ++ best.tag ++
        ", so updates leave it alone. Run a released build such as " ++ best.tag ++
        " and this clears." }

def choose : Target :=
  if i.mode ≠ .manual ∧ i.mode ≠ .auto then
    { reason := "Updates are off. Set updates.mode to manual or auto to be offered new releases." }
  else
    match newest i.releases i.goos i.goarch with
    | none => { reason := noReleaseReason i.goos i.goarch }
    | some best =>
      match Version.release i.running with
      | none => chooseReplacing i best
      | some r => chooseOver i best ("v" ++ r)

theorem chooseNewer_auto {i : ChooseInput} {best : Release} {running : String} (h : i.mode = .auto) :
    (chooseNewer i best running).release = best ∧
      (chooseNewer i best running).dueAt = best.publishedAt + i.soak := by
  unfold chooseNewer
  rw [if_neg (by rw [h]; decide)]
  exact ⟨rfl, rfl⟩

theorem choose_auto {i : ChooseInput} (hmode : i.mode = .auto) (hnew : (choose i).newer = true)
    (hrep : (choose i).replaces = false) :
    (choose i).release ∈ i.releases ∧ (choose i).release.eligible i.goos i.goarch = true ∧
      compareBuilds i.running (choose i).release.tag = .behind ∧
      (choose i).dueAt = (choose i).release.publishedAt + i.soak := by
  have hon : ¬(i.mode ≠ .manual ∧ i.mode ≠ .auto) := fun h => h.2 hmode
  unfold choose at hnew hrep ⊢
  rw [if_neg hon] at hnew hrep ⊢
  cases hbest : newest i.releases i.goos i.goarch with
  | none =>
    rw [hbest] at hnew
    cases hnew
  | some best =>
    obtain ⟨hmem, helig⟩ := newest_eligible hbest
    rw [hbest] at hnew hrep
    dsimp only at hnew hrep ⊢
    cases hrel : Version.release i.running with
    | none =>
      rw [hrel] at hrep
      cases hrep
    | some r =>
      rw [hrel] at hnew
      dsimp only at hnew ⊢
      unfold chooseOver at hnew ⊢
      cases hskew : compareBuilds i.running best.tag with
      | behind =>
        obtain ⟨hr, hd⟩ := chooseNewer_auto hmode
        dsimp only
        rw [hr, hd]
        exact ⟨hmem, helig, hskew, rfl⟩
      | none | ahead | differs =>
        rw [hskew] at hnew
        cases hnew

end Zoomies.Updates
