import Zoomies.Sweep
import Zoomies.RowTable
import Zoomies.SortFunc
import Zoomies.StoreRows
import Mathlib.Algebra.BigOperators.Ring.Finset
import Zoomies.KeyedList

/-! The usage ledger, in the milliseconds the schema stores: sessions, the roll-up that absorbs whole
days of them, and the prune. -/
namespace Zoomies.Store
open Zoomies.Go List

section
def dayMS : Int := 86400000

def utcDay (t : Int) : Int := t - (t.tmod dayMS + dayMS).tmod dayMS

structure RunnerSession where
  runnerID : String
  poolID : String
  hostID : String
  installationID : String
  startedAt : Int
  finishedAt : Int
  costPerRunnerHour : Option ℚ
  recordedAt : Int
deriving DecidableEq

structure UsageDayKey where
  day : Int
  pool : String
  host : String
  installation : String
deriving DecidableEq

structure UsageDay where
  key : UsageDayKey
  allocatedSeconds : Int
  costMinor : Option Int
deriving DecidableEq

structure UsageDayAcc where
  ms : Int := 0
  cost : ℚ := 0
  priced : Bool := false

structure DayPiece where
  key : UsageDayKey
  ms : Int
  rate : Option ℚ

def RunnerSession.dayKey (x : RunnerSession) (day : Int) : UsageDayKey :=
  ⟨day, x.poolID, x.hostID, x.installationID⟩

def sessionPieces (lo hi : Int) (x : RunnerSession) : List DayPiece :=
  let start := max x.startedAt lo
  let stop := min x.finishedAt hi
  (cuts (fun t => utcDay t + dayMS) (cutFuel start stop) start stop).map fun p =>
    { key := x.dayKey (utcDay p.1), ms := p.2 - p.1, rate := x.costPerRunnerHour }

def UsageDayAcc.add (a : UsageDayAcc) (c : DayPiece) : UsageDayAcc :=
  match c.rate with
  | none => { a with ms := a.ms + c.ms }
  | some rate => { ms := a.ms + c.ms, cost := a.cost + c.ms * rate, priced := true }

def absorb (o : Option (UsageDayKey × UsageDayAcc)) (c : DayPiece) : UsageDayKey × UsageDayAcc :=
  (c.key, ((o.map Prod.snd).getD {}).add c)

def roundHalfAway (q : ℚ) : Int := if 0 ≤ q then ⌊q + 1 / 2⌋ else ⌈q - 1 / 2⌉

def usageDay (e : UsageDayKey × UsageDayAcc) : UsageDay where
  key := e.1
  allocatedSeconds := e.2.ms / 1000
  costMinor := if e.2.priced then some (roundHalfAway (e.2.cost / 3600000 * 100)) else none

def compareDays : UsageDay → UsageDay → Ordering :=
  compareLex (compareOn fun d => d.key.day) <| compareLex (compareOn fun d => d.key.pool) <|
    compareLex (compareOn fun d => d.key.host) (compareOn fun d => d.key.installation)

def rollUpAcc (lo hi : Int) (sessions : List RunnerSession) : List (UsageDayKey × UsageDayAcc) :=
  sessions.foldl
    (fun acc x => (sessionPieces lo hi x).foldl (amend Prod.fst DayPiece.key absorb) acc) []

variable (t : Int) (sessions : List RunnerSession)

def rollUpSessions (source until_ : Time) : List UsageDay :=
  sortStableFunc compareDays
    ((rollUpAcc (utcDay (ms source)) (utcDay (ms until_)) sessions).map usageDay)

theorem utcDay_eq : utcDay t = t - t % dayMS := by
  have hpos : 0 ≤ t.tmod dayMS + dayMS := by
    have h := Int.lt_tmod_of_pos t (show (0 : Int) < dayMS by decide)
    omega
  have hmod : t.tmod dayMS % dayMS = t % dayMS := by
    rw [Int.tmod_def, Int.sub_mul_emod_self_left]
  rw [utcDay, Int.tmod_eq_emod_of_nonneg hpos, Int.add_emod_right, hmod]

theorem utcDay_le : utcDay t ≤ t := by
  rw [utcDay_eq, dayMS]
  omega

theorem lt_utcDay_add : t < utcDay t + dayMS := by
  rw [utcDay_eq, dayMS]
  omega

@[simp] theorem utcDay_utcDay : utcDay (utcDay t) = utcDay t := by
  rw [utcDay_eq, utcDay_eq, dayMS]
  omega

theorem utcDay_mono {a b : Int} (h : a ≤ b) : utcDay a ≤ utcDay b := by
  rw [utcDay_eq, utcDay_eq, dayMS]
  omega

theorem utcDay_eq_of_mem {d t : Int} (hd : utcDay d = d) (hle : d ≤ t) (hlt : t < d + dayMS) :
    utcDay t = d := by
  rw [utcDay_eq, dayMS] at *
  omega

theorem day_end_le {d m : Int} (hd : utcDay d = d) (hm : utcDay m = m) (h : d < m) :
    d + dayMS ≤ m := by
  rw [utcDay_eq, dayMS] at *
  omega

def RunnerSession.liveOn (x : RunnerSession) (day : Int) : Int :=
  overlap x.startedAt x.finishedAt day (day + dayMS)

def sessionsOf (k : UsageDayKey) : List RunnerSession :=
  sessions.filter fun x => x.dayKey k.day = k ∧ 0 < x.liveOn k.day

def dayAcc (live : List RunnerSession) (day : Int) : UsageDayAcc where
  ms := (live.map fun x => x.liveOn day).sum
  cost := (live.map fun x => (x.liveOn day : ℚ) * x.costPerRunnerHour.getD 0).sum
  priced := live.any fun x => x.costPerRunnerHour.isSome

def dayTotal (k : UsageDayKey) : Option UsageDay :=
  if sessionsOf sessions k = [] then none
  else some (usageDay (k, dayAcc (sessionsOf sessions k) k.day))

theorem sum_sessionsOf {M : Type} [AddCommMonoid M] {sessions : List RunnerSession} {k : UsageDayKey}
    {g : RunnerSession → M} (hg : ∀ x, x.liveOn k.day = 0 → g x = 0) :
    ((sessionsOf sessions k).map g).sum =
      (sessions.map fun x => if x.dayKey k.day = k then g x else 0).sum := by
  rw [sessionsOf, sum_map_filter]
  congr 1
  apply map_congr_left
  intro x _
  by_cases hk : x.dayKey k.day = k
  · by_cases hpos : 0 < x.liveOn k.day
    · rw [if_pos ⟨hk, hpos⟩, if_pos hk]
    · have hzero : x.liveOn k.day = 0 := le_antisymm (not_lt.mp hpos) overlap_nonneg
      rw [if_neg fun h => hpos h.2, if_pos hk, hg x hzero]
  · rw [if_neg fun h => hk h.1, if_neg hk]

def pieceAcc (l : List DayPiece) : UsageDayAcc where
  ms := (l.map DayPiece.ms).sum
  cost := (l.map fun c => (c.ms : ℚ) * c.rate.getD 0).sum
  priced := l.any fun c => c.rate.isSome

theorem add_piece (a : UsageDayAcc) (c : DayPiece) :
    a.add c = ⟨a.ms + c.ms, a.cost + c.ms * c.rate.getD 0, a.priced || c.rate.isSome⟩ := by
  unfold UsageDayAcc.add
  cases c.rate with
  | none => simp
  | some rate => simp

theorem foldl_add (l : List DayPiece) (a : UsageDayAcc) : l.foldl UsageDayAcc.add a =
      ⟨a.ms + (pieceAcc l).ms, a.cost + (pieceAcc l).cost, a.priced || (pieceAcc l).priced⟩ := by
  induction l generalizing a with
  | nil => simp [pieceAcc]
  | cons c rest ih =>
    rw [foldl_cons, ih, add_piece]
    simp [pieceAcc, add_assoc, Bool.or_assoc]

theorem foldl_absorb {k : UsageDayKey} {l : List DayPiece} (hk : ∀ c ∈ l, c.key = k)
    (a : UsageDayAcc) :
    l.foldl (fun o c => some (absorb o c)) (some (k, a)) = some (k, l.foldl UsageDayAcc.add a) := by
  induction l generalizing a with
  | nil => rfl
  | cons c rest ih =>
    rw [foldl_cons, foldl_cons, absorb, hk c mem_cons_self]
    exact ih (fun d hd => hk d (mem_cons_of_mem _ hd)) _

theorem foldl_absorb_none {k : UsageDayKey} {l : List DayPiece} (hk : ∀ c ∈ l, c.key = k) :
    l.foldl (fun o c => some (absorb o c)) none = if l = [] then none else some (k, pieceAcc l) := by
  cases l with
  | nil => rfl
  | cons c rest =>
    rw [foldl_cons, absorb, hk c mem_cons_self,
      foldl_absorb fun d hd => hk d (mem_cons_of_mem _ hd), if_neg (cons_ne_nil _ _)]
    change some (k, (c :: rest).foldl UsageDayAcc.add {}) = _
    rw [foldl_add]
    simp

theorem overlap_piece {d : Int} (hd : utcDay d = d) {p : Int × Int} (hlt : p.1 < p.2)
    (hday : p.2 ≤ utcDay p.1 + dayMS) :
    overlap p.1 p.2 d (d + dayMS) = if utcDay p.1 = d then p.2 - p.1 else 0 := by
  have hle := utcDay_le p.1
  split_ifs with h
  · subst h
    exact overlap_inside hlt.le hle hday
  apply overlap_outside
  have hother : ¬(d ≤ p.1 ∧ p.1 < d + dayMS) := fun hin => h (utcDay_eq_of_mem hd hin.1 hin.2)
  rcases lt_or_ge p.1 d with hbefore | hafter
  · exact .inl (le_trans hday (day_end_le (utcDay_utcDay _) hd (lt_of_le_of_lt hle hbefore)))
  · exact .inr (not_lt.mp fun hin => hother ⟨hafter, hin⟩)

section
variable (lo hi : Int) (hlo : utcDay lo = lo) (hhi : utcDay hi = hi) (k : UsageDayKey)

def piecesUnder (x : RunnerSession) : List DayPiece :=
  (sessionPieces lo hi x).filter fun c => c.key = k

variable {lo hi k}

variable {x : RunnerSession}

theorem mem_piecesUnder {c : DayPiece} (hc : c ∈ piecesUnder lo hi k x) :
    x.dayKey k.day = k ∧ c.key = k ∧ 0 < c.ms ∧ c.rate = x.costPerRunnerHour := by
  obtain ⟨hmem, hkey⟩ := mem_filter.mp hc
  obtain ⟨p, hp, rfl⟩ := mem_map.mp hmem
  have hk : x.dayKey (utcDay p.1) = k := by simpa using hkey
  have hpos := (mem_cuts lt_utcDay_add _ hp).2.1
  refine ⟨?_, hk, sub_pos.mpr hpos, rfl⟩
  rw [← hk]
  rfl

include hlo in
theorem piecesUnder_outside
    (h : ¬(lo ≤ k.day ∧ k.day < hi ∧ utcDay k.day = k.day)) : piecesUnder lo hi k x = [] := by
  rw [eq_nil_iff_forall_not_mem]
  intro c hc
  obtain ⟨hmem, hkey⟩ := mem_filter.mp hc
  obtain ⟨p, hp, rfl⟩ := mem_map.mp hmem
  have hk : x.dayKey (utcDay p.1) = k := by simpa using hkey
  have hday : utcDay p.1 = k.day := by rw [← hk]; rfl
  obtain ⟨hge, hlt, hle, -⟩ := mem_cuts lt_utcDay_add _ hp
  have hfirst : lo ≤ utcDay p.1 := by
    rw [← hlo]
    exact utcDay_mono (le_trans (le_max_right _ _) hge)
  have hlast : utcDay p.1 < hi :=
    lt_of_le_of_lt (utcDay_le _) (lt_of_lt_of_le hlt (le_trans hle (min_le_right _ _)))
  rw [← hday] at h
  exact h ⟨hfirst, hlast, utcDay_utcDay _⟩

variable (hin : lo ≤ k.day) (hbefore : k.day < hi) (hday : utcDay k.day = k.day)
include hhi hin hbefore hday

theorem sum_piecesUnder (x : RunnerSession) : ((piecesUnder lo hi k x).map DayPiece.ms).sum =
      if x.dayKey k.day = k then x.liveOn k.day else 0 := by
  split_ifs with hk
  · have hkey : ∀ p : Int × Int, x.dayKey (utcDay p.1) = k ↔ utcDay p.1 = k.day := by
      intro p
      constructor
      · intro h
        rw [← h]
        rfl
      · intro h
        rw [h, hk]
    have hclip : overlap (max x.startedAt lo) (min x.finishedAt hi) k.day (k.day + dayMS) =
        x.liveOn k.day := overlap_clip hin (day_end_le hday hhi hbefore)
    rw [piecesUnder, sum_map_filter, sessionPieces, map_map, ← hclip,
      ← sum_overlap_cuts lt_utcDay_add]
    congr 1
    apply map_congr_left
    intro p hp
    obtain ⟨-, hlt, -, hend⟩ := mem_cuts lt_utcDay_add _ hp
    rw [overlap_piece hday hlt hend]
    exact if_congr (hkey p) rfl rfl
  · have hnone : piecesUnder lo hi k x = [] := eq_nil_iff_forall_not_mem.mpr fun c hc =>
      hk (mem_piecesUnder hc).1
    rw [hnone]
    rfl

theorem piecesUnder_eq_nil_iff :
    piecesUnder lo hi k x = [] ↔ ¬(x.dayKey k.day = k ∧ 0 < x.liveOn k.day) := by
  have hsum := sum_piecesUnder hhi hin hbefore hday x
  constructor
  · rintro hnil ⟨hk, hlive⟩
    rw [hnil, if_pos hk] at hsum
    exact hlive.ne hsum
  intro hno
  by_contra hne
  obtain ⟨c, hc⟩ := exists_mem_of_ne_nil _ hne
  have hk := (mem_piecesUnder hc).1
  have hpos : 0 < ((piecesUnder lo hi k x).map DayPiece.ms).sum := by
    apply sum_pos
    · intro m hm
      obtain ⟨c', hc', rfl⟩ := mem_map.mp hm
      exact (mem_piecesUnder hc').2.2.1
    · exact fun h => hne (map_eq_nil_iff.mp h)
  rw [hsum, if_pos hk] at hpos
  exact hno ⟨hk, hpos⟩

theorem cost_piecesUnder : ((piecesUnder lo hi k x).map fun c => (c.ms : ℚ) * c.rate.getD 0).sum =
      if x.dayKey k.day = k then (x.liveOn k.day : ℚ) * x.costPerRunnerHour.getD 0 else 0 := by
  have hrate : (piecesUnder lo hi k x).map (fun c => (c.ms : ℚ) * c.rate.getD 0) =
      (piecesUnder lo hi k x).map fun c => (c.ms : ℚ) * x.costPerRunnerHour.getD 0 := by
    apply map_congr_left
    intro c hc
    rw [(mem_piecesUnder hc).2.2.2]
  have hcast : ((piecesUnder lo hi k x).map fun c => (c.ms : ℚ)).sum =
      (((piecesUnder lo hi k x).map DayPiece.ms).sum : Int) := by
    rw [Int.cast_list_sum, map_map]
    rfl
  rw [hrate, sum_map_mul_right, hcast, sum_piecesUnder hhi hin hbefore hday]
  split_ifs
  · rfl
  · rw [Int.cast_zero, zero_mul]

theorem pieceAcc_flatMap (sessions : List RunnerSession) :
    pieceAcc (sessions.flatMap (piecesUnder lo hi k)) = dayAcc (sessionsOf sessions k) k.day := by
  have hms : ((sessions.flatMap (piecesUnder lo hi k)).map DayPiece.ms).sum =
      ((sessionsOf sessions k).map fun x => x.liveOn k.day).sum := by
    rw [sum_map_flatMap, sum_sessionsOf fun x h => h,
      map_congr_left fun x _ => sum_piecesUnder hhi hin hbefore hday x]
  have hcost : ((sessions.flatMap (piecesUnder lo hi k)).map fun c => (c.ms : ℚ) * c.rate.getD 0).sum =
      ((sessionsOf sessions k).map fun x =>
        (x.liveOn k.day : ℚ) * x.costPerRunnerHour.getD 0).sum := by
    rw [sum_map_flatMap, sum_sessionsOf fun x h => by rw [h, Int.cast_zero, zero_mul],
      map_congr_left fun x _ => cost_piecesUnder hhi hin hbefore hday]
  have hpriced : ((sessions.flatMap (piecesUnder lo hi k)).any fun c => c.rate.isSome) =
      (sessionsOf sessions k).any fun x => x.costPerRunnerHour.isSome := by
    rw [Bool.eq_iff_iff, any_eq_true, any_eq_true]
    constructor
    · rintro ⟨c, hc, hsome⟩
      obtain ⟨x, hx, hcx⟩ := mem_flatMap.mp hc
      obtain ⟨hk, -, -, hrate⟩ := mem_piecesUnder hcx
      have hne : piecesUnder lo hi k x ≠ [] := ne_nil_of_mem hcx
      have hon := not_not.mp ((piecesUnder_eq_nil_iff hhi hin hbefore hday).not.mp hne)
      exact ⟨x, mem_filter.mpr ⟨hx, by simpa using hon⟩, hrate ▸ hsome⟩
    rintro ⟨x, hx, hsome⟩
    obtain ⟨hmem, hon⟩ := mem_filter.mp hx
    have hon : x.dayKey k.day = k ∧ 0 < x.liveOn k.day := by simpa using hon
    have hne : piecesUnder lo hi k x ≠ [] :=
      (piecesUnder_eq_nil_iff hhi hin hbefore hday).not.mpr (not_not.mpr hon)
    obtain ⟨c, hc⟩ := exists_mem_of_ne_nil _ hne
    refine ⟨c, mem_flatMap.mpr ⟨x, hmem, hc⟩, ?_⟩
    rw [(mem_piecesUnder hc).2.2.2]
    exact hsome
  unfold pieceAcc dayAcc
  rw [hms, hcost, hpriced]

theorem flatMap_piecesUnder_eq_nil_iff {sessions : List RunnerSession} :
    sessions.flatMap (piecesUnder lo hi k) = [] ↔ sessionsOf sessions k = [] := by
  rw [flatMap_eq_nil_iff, sessionsOf, filter_eq_nil_iff]
  refine forall₂_congr fun x _ => ?_
  rw [piecesUnder_eq_nil_iff hhi hin hbefore hday]
  simp

end

theorem absorb_key {o : Option (UsageDayKey × UsageDayAcc)} (c : DayPiece) :
    (absorb o c).1 = c.key := rfl

theorem nodup_rollUpAcc {lo hi : Int} {sessions : List RunnerSession} :
    ((rollUpAcc lo hi sessions).map Prod.fst).Nodup := by
  rw [rollUpAcc, ← foldl_flatMap]
  exact nodup_foldl_amend _ _ (fun o c _ => absorb_key c) _ nodup_nil

theorem map_key_usageDay (acc : List (UsageDayKey × UsageDayAcc)) :
    (acc.map usageDay).map UsageDay.key = acc.map Prod.fst := by
  rw [map_map]
  rfl

theorem nodup_rollUpSessions {sessions : List RunnerSession} {source until_ : Time} :
    ((rollUpSessions sessions source until_).map UsageDay.key).Nodup := by
  refine (sortStableFunc_perm.map UsageDay.key).nodup_iff.mpr ?_
  rw [map_key_usageDay]
  exact nodup_rollUpAcc

theorem rowAt_rollUpAcc (lo hi : Int) (sessions : List RunnerSession) (k : UsageDayKey) :
    rowAt Prod.fst k (rollUpAcc lo hi sessions) =
      if sessions.flatMap (piecesUnder lo hi k) = [] then none
      else some (k, pieceAcc (sessions.flatMap (piecesUnder lo hi k))) := by
  rw [rollUpAcc, ← foldl_flatMap, rowAt_foldl_amend _ _ _ fun o c _ => absorb_key c, filter_flatMap]
  refine foldl_absorb_none fun c hc => ?_
  obtain ⟨x, -, hcx⟩ := mem_flatMap.mp hc
  exact (mem_piecesUnder hcx).2.1

theorem rowAt_rollUpSessions (sessions : List RunnerSession) (source until_ : Time)
    (k : UsageDayKey) : rowAt UsageDay.key k (rollUpSessions sessions source until_) =
      if utcDay (ms source) ≤ k.day ∧ k.day < utcDay (ms until_) ∧ utcDay k.day = k.day then
        dayTotal sessions k
      else none := by
  unfold rollUpSessions
  generalize hlo : utcDay (ms source) = lo
  generalize hhi : utcDay (ms until_) = hi
  have hlo' : utcDay lo = lo := by rw [← hlo, utcDay_utcDay]
  have hhi' : utcDay hi = hi := by rw [← hhi, utcDay_utcDay]
  have hkeys : (((rollUpAcc lo hi sessions).map usageDay).map UsageDay.key).Nodup := by
    rw [map_key_usageDay]
    exact nodup_rollUpAcc
  have hsort : rowAt UsageDay.key k
      (sortStableFunc compareDays ((rollUpAcc lo hi sessions).map usageDay)) =
        rowAt UsageDay.key k ((rollUpAcc lo hi sessions).map usageDay) :=
    (find?_perm UsageDay.key hkeys sortStableFunc_perm.symm k).symm
  have hmap : rowAt UsageDay.key k ((rollUpAcc lo hi sessions).map usageDay) =
      (rowAt Prod.fst k (rollUpAcc lo hi sessions)).map usageDay := by
    rw [rowAt, rowAt, find?_map]
    rfl
  rw [hsort, hmap, rowAt_rollUpAcc]
  split_ifs with hnil hin hin
  · have hnone := (flatMap_piecesUnder_eq_nil_iff hhi' hin.1 hin.2.1 hin.2.2).mp hnil
    rw [dayTotal, if_pos hnone]
    rfl
  · rfl
  · have hsome := (flatMap_piecesUnder_eq_nil_iff hhi' hin.1 hin.2.1 hin.2.2).not.mp hnil
    rw [pieceAcc_flatMap hhi' hin.1 hin.2.1 hin.2.2, dayTotal, if_neg hsome]
    rfl
  · refine absurd (flatMap_eq_nil_iff.mpr fun x _ => ?_) hnil
    exact piecesUnder_outside hlo' hin

end

structure LedgerRunner where
  id : String
  poolID : String
  hostID : String
  createdAt : Int
  finishedAt : Option Int := none
  hostRemovedAt : Option Int := none
  cleanedUpAt : Option Int := none
deriving DecidableEq

structure LedgerPool where
  id : String
  installationID : String
  costPerRunnerHour : Option ℚ := none
deriving DecidableEq

structure UsageRollup where
  rolledFrom : Int
  rolledUntil : Int
deriving DecidableEq

structure UsageLedger where
  runners : List LedgerRunner := []
  pools : List LedgerPool := []
  sessions : List RunnerSession := []
  usageDaily : List UsageDay := []
  rollup : Option UsageRollup := none
deriving DecidableEq

variable (now : Int) (d : Driver) (until_ : Time)

def sessionOf (pools : List LedgerPool) (r : LedgerRunner) : RunnerSession :=
  let p := rowAt LedgerPool.id r.poolID pools
  { runnerID := r.id
    poolID := r.poolID
    hostID := r.hostID
    installationID := (p.map LedgerPool.installationID).getD ""
    startedAt := r.createdAt
    finishedAt := (((r.finishedAt.or r.hostRemovedAt).or r.cleanedUpAt)).getD now
    costPerRunnerHour := p.bind LedgerPool.costPerRunnerHour
    recordedAt := now }

def hasSession (sessions : List RunnerSession) (id : String) : Bool :=
  sessions.any fun x => x.runnerID == id

def insertSession (sessions : List RunnerSession) (x : RunnerSession) : List RunnerSession :=
  if hasSession sessions x.runnerID then sessions else sessions ++ [x]

def recordSessionsWhere (selects : LedgerRunner → Bool) (s : UsageLedger) : UsageLedger :=
  { s with sessions := ((s.runners.filter selects).map (sessionOf now s.pools)).foldl
             insertSession s.sessions }

def querySessions (source until_ : Int) (sessions : List RunnerSession) : List RunnerSession :=
  sortStableFunc (compareLex (compareOn RunnerSession.startedAt) (compareOn RunnerSession.runnerID))
    (sessions.filter fun x => x.startedAt < until_ ∧ x.finishedAt > source)

def minimum : List Int → Option Int
  | [] => none
  | a :: rest => some (rest.foldl min a)

variable (s : UsageLedger)

def heldAt : Option Int :=
  minimum ((s.runners.filter fun r => !hasSession s.sessions r.id).map LedgerRunner.createdAt)

def rollUpTarget : Int :=
  let target := utcDay (ms until_)
  match heldAt s with
  | none => target
  | some held => min target (utcDay held)

def rolledSoFar : Option UsageRollup :=
  match s.rollup with
  | some r => some r
  | none => (minimum (s.sessions.map RunnerSession.startedAt)).map fun first =>
      ⟨utcDay first, utcDay first⟩

def mergeCost : Option Int → Option Int → Option Int
  | none, c => c
  | some c, none => some c
  | some c, some c' => some (max c c')

def mergeDay (o : Option UsageDay) (d : UsageDay) : UsageDay :=
  match o with
  | none => d
  | some u =>
    { key := d.key
      allocatedSeconds := max u.allocatedSeconds d.allocatedSeconds
      costMinor := mergeCost u.costMinor d.costMinor }

def absorbDays (r : UsageRollup) (target : Int) (s : UsageLedger) : UsageLedger :=
  let days := rollUpSessions (querySessions r.rolledUntil target s.sessions)
    (atMillis r.rolledUntil) (atMillis target)
  { s with
    usageDaily := days.foldl (amend UsageDay.key UsageDay.key mergeDay) s.usageDaily
    rollup := some ⟨r.rolledFrom, target⟩ }

def rollUpBody : Except StoreError (UsageLedger × Int) :=
  match d.queryError with
  | some e => .error (.driver e)
  | none =>
    match rolledSoFar s with
    | none => .ok (s, 0)
    | some r =>
      let target := rollUpTarget until_ s
      if target ≤ r.rolledUntil then .ok (s, 0)
      else refusing d.execError (absorbDays r target s, (target - r.rolledUntil) / dayMS)

def rollUpUsage : UsageLedger × Except StoreError Int :=
  tx d s (rollUpBody d until_ s)

def pruneCutoff (before : Time) (s : UsageLedger) : Int :=
  min (ms before) ((s.rollup.map UsageRollup.rolledUntil).getD 0)

def pruneRunnerSessions (before : Time) (s : UsageLedger) : UsageLedger × Except StoreError Unit :=
  exec d s { s with sessions := s.sessions.filter fun x => !decide (x.finishedAt < pruneCutoff before s) }

def addRunner (r : LedgerRunner) (s : UsageLedger) : UsageLedger :=
  if s.runners.any fun o => o.id == r.id then s
  else { s with runners := s.runners ++ [{ r with createdAt := now }] }

def editRunners (f : LedgerRunner → LedgerRunner) (s : UsageLedger) : UsageLedger :=
  { s with runners := s.runners.map fun r => { f r with id := r.id, createdAt := r.createdAt } }

def deleteRunners (selects : LedgerRunner → Bool) (s : UsageLedger) : UsageLedger :=
  { s with runners := s.runners.filter fun r => !selects r }

inductive UsageGroup where
  | installation | repository | workflow | pool | host | other (word : String)
deriving DecidableEq

def UsageGroup.text : UsageGroup → String
  | .installation => "installation"
  | .repository => "repository"
  | .workflow => "workflow"
  | .pool => "pool"
  | .host => "host"
  | .other word => word

inductive UsageColumn where
  | pool | host | installation
deriving DecidableEq

def UsageGroup.column : UsageGroup → Option UsageColumn
  | .pool => some .pool
  | .host => some .host
  | .installation => some .installation
  | _ => none

variable (c : UsageColumn) (w : UsageWindow) (s : UsageLedger)

def UsageColumn.ofDay (k : UsageDayKey) : String :=
  match c with
  | .pool => k.pool
  | .host => k.host
  | .installation => k.installation

variable (x : RunnerSession)

def UsageColumn.ofSession : String :=
  match c with
  | .pool => x.poolID
  | .host => x.hostID
  | .installation => x.installationID

structure Fed where
  key : String
  start : Int
  secs : ℚ
  cost : Option ℚ

structure UsageWindow where
  lo : Int
  hi : Int
  observed : Int
  width : Int

def UsageWindow.bucket (t : Int) : Int := (t - w.lo) / w.width

def UsageLedger.rolledUntil (s : UsageLedger) : Int :=
  (s.rollup.map UsageRollup.rolledUntil).getD 0

def UsageWindow.rolled (until_ day : Int) : Bool :=
  let stop := day + dayMS
  decide (day ≥ w.lo) && decide (stop ≤ w.hi) && decide (stop ≤ until_) && decide (stop ≤ w.observed) &&
    w.bucket day == w.bucket (stop - 1)

structure DaySum where
  day : Int
  key : String
  secs : Int
  minor : Option Int

def sumMinor : Option Int → Option Int → Option Int
  | none, c => c
  | some c, none => some c
  | some c, some c' => some (c + c')

def addDay (o : Option DaySum) (d : UsageDay) : DaySum :=
  match o with
  | none => ⟨d.key.day, c.ofDay d.key, d.allocatedSeconds, d.costMinor⟩
  | some g => ⟨d.key.day, c.ofDay d.key, g.secs + d.allocatedSeconds, sumMinor g.minor d.costMinor⟩

def daySums (days : List UsageDay) : List DaySum :=
  days.foldl (amend (fun g => (g.day, g.key)) (fun d => (d.key.day, c.ofDay d.key)) (addDay c)) []

def UsageWindow.days : List UsageDay :=
  s.usageDaily.filter fun d => w.lo ≤ d.key.day ∧ d.key.day < min w.hi s.rolledUntil

def dayFeeds : List Fed :=
  if s.rolledUntil > w.lo then
    ((daySums c (w.days s)).filter fun g => w.rolled s.rolledUntil g.day).map fun g =>
      { key := g.key, start := g.day, secs := g.secs, cost := g.minor.map fun m => (m : ℚ) / 100 }
  else []

structure RunRow where
  key : String
  start : Int
  stop : Int
  rate : Option ℚ

def runnerRow (r : LedgerRunner) : Option RunRow :=
  (rowAt LedgerPool.id r.poolID s.pools).map fun p =>
    match rowAt RunnerSession.runnerID r.id s.sessions with
    | none =>
      { key := match c with
          | .pool => r.poolID
          | .host => r.hostID
          | .installation => p.installationID
        start := r.createdAt
        stop := r.finishedAt.getD w.observed
        rate := p.costPerRunnerHour }
    | some x =>
      { key := match c with
          | .pool => r.poolID
          | .host => r.hostID
          | .installation => x.installationID
        start := r.createdAt
        stop := x.finishedAt
        rate := x.costPerRunnerHour }

def sessionRow : RunRow :=
  ⟨c.ofSession x, x.startedAt, x.finishedAt, x.costPerRunnerHour⟩

def hasRunner : Bool :=
  s.runners.any fun r => r.id == x.runnerID

def runRows : List RunRow :=
  (s.runners.filterMap (runnerRow c w s) ++
      (s.sessions.filter fun x => !hasRunner s x).map (sessionRow c)).filter
    fun r => r.start < w.hi ∧ r.stop > w.lo

def UsageWindow.next (t : Int) : Int :=
  min (w.lo + (w.bucket t + 1) * w.width) (utcDay t + dayMS)

def UsageWindow.pieces (start stop : Int) : List (Int × Int) :=
  let start := max start w.lo
  let stop := min stop w.observed
  cuts w.next (cutFuel start stop) start stop

def feedRow (until_ : Int) (r : RunRow) : List Fed :=
  ((w.pieces r.start r.stop).filter fun p => !w.rolled until_ (utcDay p.1)).map fun p =>
    let secs : ℚ := (p.2 - p.1 : Int) / 1000
    { key := r.key, start := p.1, secs, cost := r.rate.map fun rate => secs / 3600 * rate }

def rowFeeds : List Fed :=
  (runRows c w s).flatMap (feedRow w s.rolledUntil)

def usageAllocation (d : Driver) (group : UsageGroup) (w : UsageWindow) (s : UsageLedger) :
    Except StoreError (List Fed) :=
  match d.queryError with
  | some e => .error (.driver e)
  | none =>
    match group.column with
    | none => .error (.refused ("usage group " ++ quoted group.text ++ " has no runner allocation"))
    | some c => .ok (dayFeeds c w s ++ rowFeeds c w s)

end Zoomies.Store
