import Zoomies.SchedulerAutoPools
import Zoomies.SchedulerRoomPlacement
import Zoomies.ControllerSizing

/-! Keeping pools for hosts settles: once a pass's changes are made the next has none. -/
namespace Zoomies.Scheduler
open Zoomies.Store Zoomies.Naming List

theorem normalizeArch_cases (s : String) :
    normalizeArch s = archAMD64 ∨ normalizeArch s = archARM64 ∨ normalizeArch s = "" := by
  unfold normalizeArch
  dsimp only
  split
  · exact .inl rfl
  split
  · exact .inr (.inl rfl)
  · exact .inr (.inr rfl)

theorem normalizeArch_normalizeArch (s : String) :
    normalizeArch (normalizeArch s) = normalizeArch s := by
  rcases normalizeArch_cases s with h | h | h <;> rw [h] <;> decide +kernel

theorem parseAutoKey_autoKeyFor {arch : String} {c : SizeClass} (ha : normalizeArch arch ≠ "") :
    parseAutoKey (autoKeyFor arch c) = some (normalizeArch arch, c) := by
  unfold autoKeyFor
  rcases normalizeArch_cases arch with h | h | h
  · rw [h]
    cases c <;> decide +kernel
  · rw [h]
    cases c <;> decide +kernel
  · exact absurd h ha

theorem autoPoolKey_normalizeArch (arch : String) (c : SizeClass) :
    autoPoolKey (normalizeArch arch) c = autoPoolKey arch c := by
  simp only [autoPoolKey, autoKeyFor, normalizeArch_normalizeArch]

section
variable {input : AutoPoolInput} {h : Host} {key : String}

theorem autoClassOf_arch {ac : String × SizeClass} (hc : autoClassOf input h = .ok ac) :
    ac.1 = normalizeArch h.arch ∧ normalizeArch h.arch ≠ "" := by
  unfold autoClassOf at hc
  generalize normalizeArch h.arch = arch at hc ⊢
  -- only the last of the checks lets a host through
  split at hc
  · cases hc
  split at hc
  · cases hc
  split at hc
  · cases hc
  split at hc
  · cases hc
  rename_i ha
  split at hc
  · cases hc
    exact ⟨rfl, ha⟩
  · cases hc
  · cases hc

theorem hostKey_parse (hk : hostKey input h = some key) :
    ∃ arch c, parseAutoKey key = some (arch, c) ∧ autoPoolKey arch c = key := by
  unfold hostKey at hk
  cases hc : autoClassOf input h with
  | error e =>
    rw [hc] at hk
    cases hk
  | ok ac =>
    rw [hc] at hk
    have hkey : autoPoolKey ac.1 ac.2 = key := Option.some.inj hk
    obtain ⟨he, hne⟩ := autoClassOf_arch hc
    refine ⟨ac.1, ac.2, ?_, hkey⟩
    rw [← hkey, he, autoPoolKey_normalizeArch]
    exact parseAutoKey_autoKeyFor hne

theorem skipOf_hostKey {s : HostSkip} (hs : skipOf input h = some s) :
    s.host = h ∧ hostKey input h = none := by
  unfold skipOf at hs
  unfold hostKey
  cases hc : autoClassOf input h with
  | error e =>
    rw [hc] at hs
    cases hs
    exact ⟨rfl, rfl⟩
  | ok ac =>
    rw [hc] at hs
    cases hs

theorem mem_groupOf : h ∈ groupOf input key ↔ h ∈ input.hosts ∧ hostKey input h = some key := by
  simp [groupOf, sortedHosts]

theorem mem_membersOf : h ∈ membersOf input key ↔ (h ∈ input.hosts ∧ hostKey input h = some key) ∧
      offersBackend (keyBackend input key) h = true := by
  rw [membersOf, mem_filter, mem_groupOf]

theorem mem_leftOut : h ∈ leftOut input key ↔ (h ∈ input.hosts ∧ hostKey input h = some key) ∧
      offersBackend (keyBackend input key) h = false := by
  rw [leftOut, mem_filter, mem_groupOf, Bool.not_eq_true']

theorem mem_orderedKeys : key ∈ orderedKeys input ↔
    (∃ h ∈ input.hosts, hostKey input h = some key) ∨
      ∃ p ∈ input.pools, isOurs input p = true ∧ p.autoKey = key := by
  simp [orderedKeys, sortedHosts, sortedPools, and_assoc]

end

theorem fromHosts_of_parse {p : Pool} {ac : String × SizeClass}
    (h : parseAutoKey p.autoKey = some ac) : p.fromHosts = true := by
  rw [Pool.fromHosts, bne_iff_ne]
  intro he
  rw [he] at h
  have hnone : parseAutoKey "" = none := by decide +kernel
  cases h

theorem ours_mem {input : AutoPoolInput} {key : String} {p : Pool} (h : ours input key = some p) :
    p ∈ input.pools ∧ isOurs input p = true ∧ p.autoKey = key := by
  have hm := mem_of_getLast? h
  simpa only [sortedPools, mem_filter, mem_sortStableFunc, Bool.and_eq_true, beq_iff_eq] using hm

theorem ours_ne_none {input : AutoPoolInput} {p : Pool} (hp : p ∈ input.pools)
    (ho : isOurs input p = true) : ours input p.autoKey ≠ none := by
  unfold ours
  rw [ne_eq, getLast?_eq_none_iff]
  apply ne_nil_of_mem (a := p)
  simp [sortedPools, hp, ho]

theorem mem_elsewhere {input : AutoPoolInput} {p : Pool} : p ∈ elsewhere input ↔
    p ∈ input.pools ∧ p.fromHosts = true ∧ p.installationID ≠ input.installationID := by
  simp [elsewhere, sortedPools]

structure AutoPoolInput.Proper (input : AutoPoolInput) : Prop where
  hosts : (input.hosts.map Host.id).Nodup
  pools : (input.pools.map Pool.id).Nodup
  kept : ∀ p ∈ input.pools, ∀ q ∈ input.pools, p.fromHosts = true → q.fromHosts = true →
    p.installationID = q.installationID → p.autoKey = q.autoKey → p.id = q.id

theorem ours_eq_some {input : AutoPoolInput} (hin : input.Proper) {p : Pool}
    (hp : p ∈ input.pools) (ho : isOurs input p = true) : ours input p.autoKey = some p := by
  cases hq : ours input p.autoKey with
  | none => exact absurd hq (ours_ne_none hp ho)
  | some q =>
    obtain ⟨hqm, hqo, hkey⟩ := ours_mem hq
    simp only [isOurs, Bool.and_eq_true, beq_iff_eq] at ho hqo
    have hid : q.id = p.id :=
      hin.kept q hqm p hp hqo.1 ho.1 (hqo.2.trans ho.2.symm) hkey
    rw [inj_on_of_nodup_map hin.pools hqm hp hid]

def settingsOf (p : Pool) : Pool :=
  { p with id := "", enabled := false, minRunners := 0, maxRunners := 0 }

def readsSettings (size : Pool → Pool) : Prop :=
  ∀ p q, settingsOf p = settingsOf q → settingsOf (size p) = settingsOf (size q)

theorem readsSettings_sizingPool {fleet : Controller.Runners} :
    readsSettings fun p => Controller.sizingPool p fleet := by
  intro p q h
  -- sizing a pool and setting its limits aside can be done in either order
  have hcomm : ∀ p, settingsOf (Controller.sizingPool p fleet) =
      Controller.sizingPool (settingsOf p) fleet := fun _ => rfl
  rw [hcomm, hcomm, h]

theorem hostRoomFor_settingsOf {h : Host} {p : Pool} :
    hostRoomFor h (settingsOf p) = hostRoomFor h p := rfl

theorem autoSlots_of_settings {size : Pool → Pool} (hsize : readsSettings size) {p q : Pool}
    (h : settingsOf p = settingsOf q) (hosts : List Host) :
    autoSlots p hosts size = autoSlots q hosts size := by
  have hsized := hsize p q h
  unfold autoSlots
  congr 1
  apply map_congr_left
  intro host _
  rw [← hostRoomFor_settingsOf, hsized, hostRoomFor_settingsOf]

section
variable (input : AutoPoolInput) {p : Pool} (arch : String) (c : SizeClass)

theorem sameSelector_newAutoPool (backend : BackendKind) :
    sameSelector (newAutoPool input arch c backend).hostSelector
      (newAutoPool input arch c backend).hostSelector = true := by
  simp [sameSelector, newAutoPool]

theorem reshaped_newAutoPool (backend : BackendKind) :
    reshaped input (newAutoPool input arch c backend) arch c = false := by
  have hselector := sameSelector_newAutoPool input arch c backend
  have hbackend : (newAutoPool input arch c backend).backend = backend := rfl
  unfold reshaped
  dsimp only
  rw [hbackend, hselector]
  simp [newAutoPool]

variable {input arch c}

theorem reshaped_settingsOf : reshaped input (settingsOf p) arch c = reshaped input p arch c := rfl

theorem reshaped_reshape : reshaped input (reshape input p arch c) arch c = false := by
  have hlabels : normalizeLabels (reshape input p arch c).labels =
      normalizeLabels (newAutoPool input arch c p.backend).labels := by
    unfold reshape
    dsimp only
    split
    · rfl
    · rename_i h
      exact not_not.mp h
  have hselector : sameSelector (reshape input p arch c).hostSelector
      (newAutoPool input arch c p.backend).hostSelector = true := by
    unfold reshape
    dsimp only
    split
    · assumption
    · exact sameSelector_newAutoPool input arch c p.backend
  have hbackend : (reshape input p arch c).backend = p.backend := rfl
  unfold reshaped
  dsimp only
  rw [hbackend, hlabels, hselector]
  simp [reshape]

theorem reshape_of_not_reshaped (h : reshaped input p arch c = false) :
    reshape input p arch c = p := by
  simp only [reshaped, Bool.or_eq_false_iff, decide_eq_false_iff_not, Bool.not_eq_false',
    ne_eq, not_not] at h
  obtain ⟨⟨⟨⟨⟨⟨hlabels, hplatform⟩, hselector⟩, hprofile⟩, hdocker⟩, hephemeral⟩, hresources⟩ := h
  unfold reshape
  dsimp only
  rw [if_neg (not_not.mpr hlabels), if_pos hselector, ← hplatform, ← hdocker]
  cases p
  simp only at hprofile hephemeral hresources
  rw [hprofile, hephemeral, hresources]

end

def limited (p : Pool) (slots : Int) (empty : Bool) : Pool :=
  if empty then { withLimits p slots with enabled := false, minRunners := 0, maxRunners := 0 }
  else { withLimits p slots with enabled := !p.autoPaused }

variable {slots : Int}

theorem limited_limited {p : Pool} {empty : Bool} :
    limited (limited p slots empty) slots empty = limited p slots empty := by
  cases empty <;> rfl

theorem settingsOf_limited {p : Pool} {empty : Bool} :
    settingsOf (limited p slots empty) = settingsOf p := by
  cases empty <;> rfl

theorem settingsOf_withLimits {p : Pool} {id : String} :
    settingsOf { withLimits p slots with id := id } = settingsOf p := rfl

theorem limited_withLimits {p : Pool} {id : String}
    (h : p.enabled = !p.autoPaused) : limited { withLimits p slots with id := id } slots false =
      { withLimits p slots with id := id } := by
  simp [limited, withLimits, h]

section
variable {input : AutoPoolInput} (reasons : String → Option SkipReason) {key arch : String}
  {c : SizeClass} {members : List Host}

theorem desiredPool_eq (p : Pool) : desiredPool input p arch c members =
    limited (reshape input p arch c) (autoSlots (reshape input p arch c) members input.sizeHook)
      members.isEmpty := rfl

theorem keptChange_eq_none_iff (p : Pool) : keptChange input reasons key arch c p members = none ↔
      reshaped input p arch c = false ∧ desiredPool input p arch c members = p := by
  unfold keptChange
  dsimp only
  constructor
  · intro h
    split at h
    · rename_i hsame
      simp only [Bool.and_eq_true, Bool.not_eq_true', Bool.or_eq_false_iff,
        bne_eq_false_iff_eq] at hsame
      obtain ⟨⟨⟨hmin, hmax⟩, henabled⟩, hshape⟩ := hsame
      refine ⟨hshape, ?_⟩
      rw [desiredPool_eq, reshape_of_not_reshaped hshape] at hmin hmax henabled ⊢
      -- the two differ in no other field than these three
      generalize autoSlots p members input.sizeHook = slots at hmin hmax henabled ⊢
      have hfields : limited p slots members.isEmpty = { p with
          minRunners := (limited p slots members.isEmpty).minRunners
          maxRunners := (limited p slots members.isEmpty).maxRunners
          enabled := (limited p slots members.isEmpty).enabled } := by
        cases members.isEmpty <;> rfl
      rw [hfields, ← hmin, ← hmax, ← henabled]
    · cases h
  · rintro ⟨hshape, hdesired⟩
    rw [hdesired, hshape]
    simp

theorem keptChange_fields {p : Pool} {ch : AutoPoolChange}
    (h : keptChange input reasons key arch c p members = some ch) :
    ch.key = key ∧ ch.before = some p ∧ ch.after = desiredPool input p arch c members := by
  unfold keptChange at h
  dsimp only at h
  split at h
  · cases h
  · rw [← Option.some.inj h]
    exact ⟨rfl, rfl, rfl⟩

theorem keptChange_limited (hsize : readsSettings input.sizeHook) {p q : Pool}
    (hset : settingsOf q = settingsOf p) (hshape : reshaped input p arch c = false)
    (hlimits : limited q (autoSlots p members input.sizeHook) members.isEmpty = q) :
    keptChange input reasons key arch c q members = none := by
  have hq : reshaped input q arch c = false := by
    rw [← reshaped_settingsOf, hset, reshaped_settingsOf, hshape]
  have hslots := autoSlots_of_settings hsize hset members
  rw [keptChange_eq_none_iff]
  refine ⟨hq, ?_⟩
  rw [desiredPool_eq, reshape_of_not_reshaped hq, hslots, hlimits]

theorem keptChange_desiredPool (hsize : readsSettings input.sizeHook) {p : Pool} :
    keptChange input reasons key arch c (desiredPool input p arch c members) members = none := by
  apply keptChange_limited reasons hsize
  · exact settingsOf_limited
  · exact reshaped_reshape
  · exact limited_limited

theorem keptChange_createdPool (hsize : readsSettings input.sizeHook) {backend : BackendKind}
    {id : String} (hmembers : members ≠ []) : keptChange input reasons key arch c
      { createdPool input arch c backend members with id := id } members = none := by
  have hempty : members.isEmpty = false := by
    rw [isEmpty_eq_false_iff]
    exact hmembers
  have hshape := reshaped_newAutoPool input arch c backend
  have hused : (newAutoPool input arch c backend).enabled =
      !(newAutoPool input arch c backend).autoPaused := rfl
  unfold createdPool
  apply keptChange_limited reasons hsize
  · exact settingsOf_withLimits
  · exact hshape
  · rw [hempty]
    exact limited_withLimits hused

end

def creatable (input : AutoPoolInput) (key arch : String) (c : SizeClass) : Option BackendKind :=
  (keyBackend input key).filter fun _ =>
    !(membersOf input key).isEmpty && (autoCollision input arch c).isNone

def countedPool (input : AutoPoolInput) (key arch : String) (c : SizeClass) : Option Pool :=
  match ours input key with
  | some p => some (reshape input p arch c)
  | none => (creatable input key arch c).map (newAutoPool input arch c)

inductive Replaces (input : AutoPoolInput) (p after : Pool) (key : String) : Prop
  | kept (arch : String) (c : SizeClass) (hparse : parseAutoKey key = some (arch, c))
      (hours : ours input key = some p)
      (hafter : after = desiredPool input p arch c (membersOf input key))
  | moved (hp : p ∈ elsewhere input) (hkey : key = p.autoKey) (hafter : after = retiredPool p)

inductive Makes (input : AutoPoolInput) (after : Pool) (key : String) : Prop
  | created (arch : String) (c : SizeClass) (backend : BackendKind)
      (hparse : parseAutoKey key = some (arch, c)) (hours : ours input key = none)
      (hmake : creatable input key arch c = some backend)
      (hafter : after = createdPool input arch c backend (membersOf input key))

def ChangeOf (input : AutoPoolInput) (ch : AutoPoolChange) : Prop :=
  match ch.before with
  | some p => Replaces input p ch.after ch.key
  | none => Makes input ch.after ch.key

section
variable (input : AutoPoolInput) (reasons : String → Option SkipReason) (key arch : String)
  (c : SizeClass)

theorem keyPlan_of_kept {p : Pool} (ho : ours input key = some p) :
    (keyPlan input reasons key arch c).changes =
      (keptChange input reasons key arch c p (membersOf input key)).toList := by
  unfold keyPlan
  rw [ho]

theorem creatable_cases {backend : Option BackendKind}
    (hb : creatable input key arch c = backend) :
    (backend = none ∧ (keyBackend input key = none ∨ (membersOf input key).isEmpty = true ∨
      ∃ clash, autoCollision input arch c = some clash)) ∨
    ∃ b, backend = some b ∧ keyBackend input key = some b ∧
      (membersOf input key).isEmpty = false ∧ autoCollision input arch c = none := by
  subst hb
  unfold creatable
  cases hk : keyBackend input key with
  | none => exact .inl ⟨rfl, .inl rfl⟩
  | some b =>
    cases hm : (membersOf input key).isEmpty with
    | true => exact .inl ⟨rfl, .inr (.inl rfl)⟩
    | false =>
      cases hc : autoCollision input arch c with
      | some clash => exact .inl ⟨rfl, .inr (.inr ⟨clash, rfl⟩)⟩
      | none => exact .inr ⟨b, rfl, rfl, rfl, rfl⟩

theorem keyPlan_of_none (ho : ours input key = none) :
    ((creatable input key arch c = none ∧ (keyPlan input reasons key arch c).changes = [] ∧
        (keyPlan input reasons key arch c).members = [] ∧
        (keyPlan input reasons key arch c).slots = []) ∨
      ∃ b cause, creatable input key arch c = some b ∧ (keyPlan input reasons key arch c).changes =
          [{ kind := .create, key := key, after := createdPool input arch c b (membersOf input key)
             hosts := hostNames (membersOf input key)
             slots := autoSlots (newAutoPool input arch c b) (membersOf input key) input.sizeHook
             cause := cause }] ∧
        (keyPlan input reasons key arch c).members = [(key, hostNames (membersOf input key))] ∧
        (keyPlan input reasons key arch c).slots =
          [(key, autoSlots (newAutoPool input arch c b) (membersOf input key)
            input.sizeHook)]) := by
  unfold keyPlan
  rw [ho]
  rcases creatable_cases input key arch c rfl with ⟨hn, hk | hm | ⟨clash, hc⟩⟩ | ⟨b, hb, hk, hm, hc⟩
  · rw [hk]
    exact .inl ⟨hn, rfl, rfl, rfl⟩
  · cases hk : keyBackend input key with
    | none => exact .inl ⟨hn, rfl, rfl, rfl⟩
    | some b =>
      dsimp only
      rw [if_pos hm]
      exact .inl ⟨hn, rfl, rfl, rfl⟩
  · cases hk : keyBackend input key with
    | none => exact .inl ⟨hn, rfl, rfl, rfl⟩
    | some b =>
      dsimp only
      rw [hc]
      split
      · exact .inl ⟨hn, rfl, rfl, rfl⟩
      · exact .inl ⟨hn, rfl, rfl, rfl⟩
  · rw [hk, hc]
    dsimp only
    rw [if_neg (Bool.eq_false_iff.mp hm)]
    exact .inr ⟨b, _, hb, rfl, rfl, rfl⟩

theorem changeOf_keyPlan (hparse : parseAutoKey key = some (arch, c)) {ch : AutoPoolChange}
    (hch : ch ∈ (keyPlan input reasons key arch c).changes) : ChangeOf input ch := by
  cases ho : ours input key with
  | some p =>
    rw [keyPlan_of_kept input reasons key arch c ho, Option.mem_toList] at hch
    obtain ⟨hkey, hbefore, hafter⟩ := keptChange_fields reasons hch
    rw [ChangeOf, hbefore, hkey]
    exact .kept arch c hparse ho hafter
  | none =>
    rcases keyPlan_of_none input reasons key arch c ho with ⟨-, he, -⟩ | ⟨b, cause, hb, he, -⟩
    · rw [he] at hch
      cases hch
    rw [he, mem_singleton] at hch
    subst hch
    exact .created arch c b hparse ho hb rfl

theorem keyPlan_counts : (keyPlan input reasons key arch c).members =
      ((countedPool input key arch c).map fun _ =>
        (key, hostNames (membersOf input key))).toList ∧
    (keyPlan input reasons key arch c).slots = ((countedPool input key arch c).map fun p =>
        (key, autoSlots p (membersOf input key) input.sizeHook)).toList := by
  unfold countedPool
  cases ho : ours input key with
  | some p =>
    unfold keyPlan
    rw [ho]
    exact ⟨rfl, rfl⟩
  | none =>
    rcases keyPlan_of_none input reasons key arch c ho with ⟨hb, -, hm, hs⟩ |
      ⟨b, cause, hb, -, hm, hs⟩
    · rw [hm, hs, hb]
      exact ⟨rfl, rfl⟩
    · rw [hm, hs, hb]
      exact ⟨rfl, rfl⟩

theorem keyPlan_skipped : (keyPlan input reasons key arch c).skipped =
    (leftOut input key).map fun h => HostSkip.mk h .backend := by
  unfold keyPlan
  dsimp only
  split
  · rfl
  split
  · rfl
  split
  · rfl
  · split <;> rfl

end

section
variable (input : AutoPoolInput)

def counted (key : String) : Option Pool :=
  (parseAutoKey key).bind fun ac => countedPool input key ac.1 ac.2

theorem planKeys_counts (reasons : String → Option SkipReason) (keys : List String) :
    (planKeys input reasons keys).members = (keys.filterMap fun key =>
        ((counted input key).map fun _ => hostNames (membersOf input key)).map fun v => (key, v)) ∧
    (planKeys input reasons keys).slots = (keys.filterMap fun key =>
        ((counted input key).map fun p => autoSlots p (membersOf input key) input.sizeHook).map
          fun v => (key, v)) := by
  induction keys generalizing reasons with
  | nil => exact ⟨rfl, rfl⟩
  | cons key rest ih =>
    rw [planKeys]
    cases hparse : parseAutoKey key with
    | none =>
      have hcount : counted input key = none := by rw [counted, hparse, Option.bind_none]
      simp only [filterMap_cons, hcount, Option.map_none]
      exact ih reasons
    | some ac =>
      obtain ⟨hm, hs⟩ :=
        keyPlan_counts input (noteLeftOut reasons (leftOut input key)) key ac.1 ac.2
      obtain ⟨ihm, ihs⟩ := ih (noteLeftOut reasons (leftOut input key))
      have hcount : counted input key = countedPool input key ac.1 ac.2 := by
        rw [counted, hparse, Option.bind_some]
      simp only [AutoPoolPlan.add, hm, hs, ihm, ihs, filterMap_cons, hcount]
      cases countedPool input key ac.1 ac.2 with
      | none | some p => exact ⟨rfl, rfl⟩

variable {keys : List String}

variable {input}

theorem planKeys_skipped (reasons : String → Option SkipReason) {s : HostSkip}
    (hs : s ∈ (planKeys input reasons keys).skipped) : ∃ key, s.host ∈ leftOut input key := by
  induction keys generalizing reasons with
  | nil => cases hs
  | cons key rest ih =>
    rw [planKeys] at hs
    cases hparse : parseAutoKey key with
    | none =>
      rw [hparse] at hs
      exact ih reasons hs
    | some ac =>
      rw [hparse] at hs
      rcases mem_append.mp hs with hhead | hrest
      · rw [keyPlan_skipped] at hhead
        obtain ⟨h, hh, rfl⟩ := mem_map.mp hhead
        exact ⟨key, hh⟩
      · exact ih _ hrest

variable {ch : AutoPoolChange}

theorem changeOf_planKeys (reasons : String → Option SkipReason)
    (hch : ch ∈ (planKeys input reasons keys).changes) : ChangeOf input ch := by
  induction keys generalizing reasons with
  | nil => cases hch
  | cons key rest ih =>
    rw [planKeys] at hch
    cases hparse : parseAutoKey key with
    | none =>
      rw [hparse] at hch
      exact ih reasons hch
    | some ac =>
      rw [hparse] at hch
      rcases mem_append.mp hch with hhead | hrest
      · exact changeOf_keyPlan input _ key ac.1 ac.2 hparse hhead
      · exact ih _ hrest

theorem planKeys_changes_of_mem (reasons : String → Option SkipReason) {key : String}
    (hkey : key ∈ keys) {ac : String × SizeClass} (hparse : parseAutoKey key = some ac) :
    ∃ known, ∀ ch ∈ (keyPlan input known key ac.1 ac.2).changes,
      ch ∈ (planKeys input reasons keys).changes := by
  induction keys generalizing reasons with
  | nil => cases hkey
  | cons head rest ih =>
    rw [planKeys]
    rcases mem_cons.mp hkey with rfl | hrest
    · rw [hparse]
      exact ⟨_, fun ch hch => mem_append_left _ hch⟩
    cases hhead : parseAutoKey head with
    | none => exact ih reasons hrest
    | some ac' =>
      obtain ⟨known, hknown⟩ := ih (noteLeftOut reasons (leftOut input head)) hrest
      exact ⟨known, fun ch hch => mem_append_right _ (hknown ch hch)⟩

theorem elsewhereChange_fields {p : Pool} (h : elsewhereChange p = some ch) :
    ch.key = p.autoKey ∧ ch.before = some p ∧ ch.after = retiredPool p := by
  unfold elsewhereChange at h
  split at h
  · cases h
  · rw [← Option.some.inj h]
    exact ⟨rfl, rfl, rfl⟩

theorem changeOf_planAutoPools (hch : ch ∈ (planAutoPools input).changes) : ChangeOf input ch := by
  rcases mem_append.mp hch with hkeyed | helse
  · exact changeOf_planKeys _ hkeyed
  obtain ⟨p, hp, hc⟩ := mem_filterMap.mp helse
  obtain ⟨hkey, hbefore, hafter⟩ := elsewhereChange_fields hc
  rw [ChangeOf, hbefore]
  exact .moved hp hkey hafter

theorem replaces_of_change (hch : ch ∈ (planAutoPools input).changes) {p : Pool}
    (hp : ch.before = some p) : Replaces input p ch.after ch.key := by
  have h := changeOf_planAutoPools hch
  rwa [ChangeOf, hp] at h

theorem makes_of_change (hch : ch ∈ (planAutoPools input).changes) (hp : ch.before = none) :
    Makes input ch.after ch.key := by
  have h := changeOf_planAutoPools hch
  rwa [ChangeOf, hp] at h

end

end Zoomies.Scheduler
