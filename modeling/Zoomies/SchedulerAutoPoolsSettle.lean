import Zoomies.SchedulerAutoPoolsFacts

/-! A pass over the pools a pass left. -/
namespace Zoomies.Scheduler
open Zoomies.Store List

def applyChanges (newID : Pool → String) (changes : List AutoPoolChange) (pools : List Pool) :
    List Pool :=
  patched Pool.id (changes.filterMap fun ch => ch.before.map fun p => (p, ch.after)) pools ++
    (changes.filter fun ch => ch.before.isNone).map fun ch =>
      { ch.after with id := newID ch.after }

def AutoPoolInput.next (input : AutoPoolInput) (newID : Pool → String)
    (previous : String → Option (List String)) : AutoPoolInput :=
  { input with
    pools := applyChanges newID (planAutoPools input).changes input.pools
    previous := previous }

theorem desiredPool_settings {input : AutoPoolInput} {p : Pool} {arch : String} {c : SizeClass}
    {members : List Host} : (desiredPool input p arch c members).autoKey = p.autoKey ∧
      (desiredPool input p arch c members).installationID = p.installationID ∧
      (desiredPool input p arch c members).backend = p.backend := by
  rw [desiredPool_eq]
  cases members.isEmpty with
  | true | false => exact ⟨rfl, rfl, rfl⟩

variable {key arch : String} {c : SizeClass} {b : BackendKind}

theorem creatable_eq_some {input : AutoPoolInput} (h : creatable input key arch c = some b) :
    keyBackend input key = some b ∧ membersOf input key ≠ [] ∧
      autoCollision input arch c = none := by
  rcases creatable_cases input key arch c h with ⟨hn, -⟩ | ⟨b', hb, hk, hm, hc⟩
  · cases hn
  · obtain rfl : b = b' := Option.some.inj hb
    exact ⟨hk, isEmpty_eq_false_iff.mp hm, hc⟩

theorem createdPool_autoKey {input : AutoPoolInput} (hparse : parseAutoKey key = some (arch, c))
    (hmake : creatable input key arch c = some b) :
    (createdPool input arch c b (membersOf input key)).autoKey = key := by
  obtain ⟨-, hmembers, -⟩ := creatable_eq_some hmake
  obtain ⟨h, hh⟩ := exists_mem_of_ne_nil _ hmembers
  obtain ⟨⟨-, hkey⟩, -⟩ := mem_membersOf.mp hh
  obtain ⟨arch', c', hparse', hback⟩ := hostKey_parse hkey
  obtain ⟨rfl, rfl⟩ := Prod.mk.inj (Option.some.inj (hparse'.symm.trans hparse))
  exact hback

section
variable {input : AutoPoolInput} (newID : Pool → String)
  (previous : String → Option (List String))

theorem mem_patches {e : Pool × Pool} :
    e ∈ (planAutoPools input).changes.filterMap (fun ch => ch.before.map fun p => (p, ch.after)) ↔
      ∃ ch ∈ (planAutoPools input).changes, ch.before = some e.1 ∧ ch.after = e.2 := by
  obtain ⟨p, q⟩ := e
  simp only [mem_filterMap, Option.map_eq_some_iff, Prod.mk.injEq]
  constructor
  · rintro ⟨ch, hch, p', hp', rfl, rfl⟩
    exact ⟨ch, hch, hp', rfl⟩
  · rintro ⟨ch, hch, hp, rfl⟩
    exact ⟨ch, hch, p, hp, rfl, rfl⟩

variable {p : Pool}

theorem before_mem {ch : AutoPoolChange} (hch : ch ∈ (planAutoPools input).changes)
    (hp : ch.before = some p) : p ∈ input.pools := by
  cases replaces_of_change hch hp with
  | kept arch c hparse hours hafter => exact (ours_mem hours).1
  | moved helse hkey hafter => exact (mem_elsewhere.mp helse).1

theorem patch_sources : ∀ e ∈ (planAutoPools input).changes.filterMap
    (fun ch => ch.before.map fun p => (p, ch.after)), e.1 ∈ input.pools := by
  intro e he
  obtain ⟨ch, hch, hbefore, -⟩ := mem_patches.mp he
  exact before_mem hch hbefore

variable (hin : input.Proper)
include hin

theorem mem_next_pools (hp : p ∈ (input.next newID previous).pools) :
    (∃ ch ∈ (planAutoPools input).changes, (∃ q, ch.before = some q) ∧ ch.after = p) ∨
    (p ∈ input.pools ∧ ∀ ch ∈ (planAutoPools input).changes, ch.before ≠ some p) ∨
    ∃ ch ∈ (planAutoPools input).changes, ch.before = none ∧
      p = { ch.after with id := newID ch.after } := by
  rcases mem_append.mp hp with hold | hmade
  · rcases mem_patched Pool.id hin.pools patch_sources hold with
      ⟨q, hq⟩ | ⟨hm, hno⟩
    · obtain ⟨ch, hch, hbefore, hafter⟩ := mem_patches.mp hq
      exact .inl ⟨ch, hch, ⟨q, hbefore⟩, hafter⟩
    refine .inr (.inl ⟨hm, ?_⟩)
    intro ch hch hbefore
    exact hno (p, ch.after) (mem_patches.mpr ⟨ch, hch, hbefore, rfl⟩) rfl
  · obtain ⟨ch, hch, rfl⟩ := mem_map.mp hmade
    rw [mem_filter, Option.isNone_iff_eq_none] at hch
    exact .inr (.inr ⟨ch, hch.1, hch.2, rfl⟩)

theorem exists_next_pool (hp : p ∈ input.pools) : ∃ q ∈ (input.next newID previous).pools,
      (∃ ch ∈ (planAutoPools input).changes, ch.before = some p ∧ ch.after = q) ∨ q = p := by
  obtain ⟨q, hq, hcases⟩ :=
    exists_mem_patched Pool.id hin.pools patch_sources hp
  refine ⟨q, mem_append_left _ hq, ?_⟩
  rcases hcases with hpatch | ⟨heq, -⟩
  · exact .inl (mem_patches.mp hpatch)
  · exact .inr heq

omit hin in
theorem mem_next_created {ch : AutoPoolChange} (hch : ch ∈ (planAutoPools input).changes)
    (hbefore : ch.before = none) :
    { ch.after with id := newID ch.after } ∈ (input.next newID previous).pools := by
  apply mem_append_right
  apply mem_map_of_mem (f := fun ch : AutoPoolChange =>
    ({ ch.after with id := newID ch.after } : Pool))
  rw [mem_filter, hbefore]
  exact ⟨hch, rfl⟩

theorem ours_next_ne_none (ho : ours input key = some p) :
    ours (input.next newID previous) key ≠ none := by
  obtain ⟨hp, hours, hkey⟩ := ours_mem ho
  obtain ⟨q, hq, hcases⟩ := exists_next_pool newID previous hin hp
  have hsame : q.autoKey = p.autoKey ∧ q.installationID = p.installationID := by
    rcases hcases with ⟨ch, hch, hbefore, rfl⟩ | rfl
    · cases replaces_of_change hch hbefore with
      | kept arch c hparse hours' hafter =>
        rw [hafter]
        obtain ⟨h1, h2, -⟩ := desiredPool_settings
        exact ⟨h1, h2⟩
      | moved helse hkey' hafter =>
        rw [hafter]
        exact ⟨rfl, rfl⟩
    · exact ⟨rfl, rfl⟩
  have hnext : isOurs (input.next newID previous) q = true := by
    have hsame' : isOurs (input.next newID previous) q = isOurs input p := by
      unfold isOurs Pool.fromHosts
      rw [hsame.1, hsame.2]
      rfl
    rw [hsame', hours]
  rw [← hkey, ← hsame.1]
  exact ours_ne_none hq hnext

theorem autoCollision_next {clash : AutoPoolFinding} (h : autoCollision input arch c = some clash) :
    autoCollision (input.next newID previous) arch c ≠ none := by
  obtain ⟨p, hp, hclash⟩ := exists_of_findSome?_eq_some h
  rw [sortedPools, mem_sortStableFunc] at hp
  obtain ⟨q, hq, hcases⟩ := exists_next_pool newID previous hin hp
  have hsame : collisionWith input arch c q = some clash := by
    rcases hcases with ⟨ch, hch, hbefore, rfl⟩ | rfl
    · cases replaces_of_change hch hbefore with
      | kept arch' c' hparse hours hafter =>
        -- a pool of this installation stops nothing
        obtain ⟨-, ho, -⟩ := ours_mem hours
        rw [isOurs, Bool.and_eq_true, beq_iff_eq] at ho
        unfold collisionWith at hclash
        simp only [ho.1, ho.2, ne_eq, not_true_eq_false, false_and, and_false, ↓reduceIte] at hclash
        cases hclash
      | moved helse hkey' hafter =>
        rw [hafter]
        exact hclash
    · exact hclash
  intro hnone
  unfold autoCollision at hnone
  rw [findSome?_eq_none_iff] at hnone
  have hq' := hnone q (by rw [sortedPools, mem_sortStableFunc]; exact hq)
  have hstill : collisionWith (input.next newID previous) arch c q = some clash := hsame
  rw [hstill] at hq'
  cases hq'

theorem next_kept_cases (hp : p ∈ (input.next newID previous).pools) (ho : isOurs input p = true)
    (hkey : p.autoKey = key) (hparse : parseAutoKey key = some (arch, c)) :
    (∃ q, ours input key = some q ∧ p = desiredPool input q arch c (membersOf input key)) ∨
    ∃ b id, ours input key = none ∧ creatable input key arch c = some b ∧
      p = { createdPool input arch c b (membersOf input key) with id := id } := by
  rcases mem_next_pools newID previous hin hp with
    ⟨ch, hch, ⟨q, hbefore⟩, rfl⟩ | ⟨hm, hno⟩ | ⟨ch, hch, hbefore, hafter⟩
  · cases replaces_of_change hch hbefore with
    | kept arch' c' hparse' hours hafter =>
      obtain ⟨-, -, hkeyq⟩ := ours_mem hours
      obtain ⟨hsame, -, -⟩ := desiredPool_settings
      have hk : ch.key = key := by rw [← hkey, hafter, hsame, hkeyq]
      rw [hk] at hparse' hours hafter
      obtain ⟨rfl, rfl⟩ := Prod.mk.inj (Option.some.inj (hparse'.symm.trans hparse))
      exact .inl ⟨q, hours, hafter⟩
    | moved helse hkey' hafter =>
      -- a pool of another installation stays in it
      rw [hafter, isOurs, Bool.and_eq_true, beq_iff_eq] at ho
      exact absurd ho.2 (mem_elsewhere.mp helse).2.2
  · have hours := ours_eq_some hin hm ho
    rw [hkey] at hours
    have hkeys : key ∈ orderedKeys input :=
      mem_orderedKeys.mpr (.inr ⟨p, hm, ho, hkey⟩)
    obtain ⟨known, hknown⟩ := planKeys_changes_of_mem _ hkeys hparse
    rw [keyPlan_of_kept input known key arch c hours] at hknown
    have hnone : keptChange input known key arch c p (membersOf input key) = none := by
      cases hk : keptChange input known key arch c p (membersOf input key) with
      | none => rfl
      | some ch =>
        obtain ⟨-, hb, -⟩ := keptChange_fields known hk
        have hch := hknown ch (by rw [hk]; exact mem_singleton_self ch)
        exact absurd hb (hno ch (mem_append_left _ hch))
    rw [keptChange_eq_none_iff] at hnone
    exact .inl ⟨p, hours, hnone.2.symm⟩
  · obtain ⟨arch', c', b, hparse', hours, hmake, hmade⟩ := makes_of_change hch hbefore
    have hk : ch.key = key := by
      rw [← hkey, hafter, hmade]
      exact (createdPool_autoKey hparse' hmake).symm
    rw [hk] at hparse' hours hmake hmade
    obtain ⟨rfl, rfl⟩ := Prod.mk.inj (Option.some.inj (hparse'.symm.trans hparse))
    exact .inr ⟨b, _, hours, hmake, by rw [hafter, hmade]⟩

theorem next_elsewhere (hp : p ∈ elsewhere (input.next newID previous)) :
    elsewhereChange p = none := by
  obtain ⟨hm, hhosts, hinst⟩ := mem_elsewhere.mp hp
  rcases mem_next_pools newID previous hin hm with
    ⟨ch, hch, ⟨q, hbefore⟩, rfl⟩ | ⟨hm', hno⟩ | ⟨ch, hch, hbefore, hafter⟩
  · cases replaces_of_change hch hbefore with
    | kept arch c hparse hours hafter =>
      obtain ⟨-, ho, -⟩ := ours_mem hours
      rw [isOurs, Bool.and_eq_true, beq_iff_eq] at ho
      obtain ⟨-, hsame, -⟩ := desiredPool_settings
      rw [hafter, hsame] at hinst
      exact absurd ho.2 hinst
    | moved helse hkey hafter =>
      rw [hafter]
      rfl
  · cases hc : elsewhereChange p with
    | none => rfl
    | some ch =>
      obtain ⟨-, hb, -⟩ := elsewhereChange_fields hc
      have helse : p ∈ elsewhere input := mem_elsewhere.mpr ⟨hm', hhosts, hinst⟩
      have hch : ch ∈ (planAutoPools input).changes :=
        mem_append_right _ (mem_filterMap.mpr ⟨p, helse, hc⟩)
      exact absurd hb (hno ch hch)
  · obtain ⟨arch, c, b, -, -, -, hmade⟩ := makes_of_change hch hbefore
    rw [hafter, hmade] at hinst
    exact absurd rfl hinst

omit hin in
theorem membersOf_next (hb : keyBackend (input.next newID previous) key = keyBackend input key) :
    membersOf (input.next newID previous) key = membersOf input key := by
  unfold membersOf
  rw [hb]
  rfl

omit hin in
theorem keptChange_next {reasons : String → Option SkipReason} (known : String → Option SkipReason) {members : List Host}
    (h : keptChange input known key arch c p members = none) :
    keptChange (input.next newID previous) reasons key arch c p members = none := by
  rw [keptChange_eq_none_iff] at h ⊢
  have hshape : reshaped (input.next newID previous) p arch c = reshaped input p arch c := rfl
  have hdesired : desiredPool (input.next newID previous) p arch c members =
      desiredPool input p arch c members := rfl
  rwa [hshape, hdesired]

variable (hsize : readsSettings input.sizeHook)
include hsize

theorem keyPlan_next_of_kept {reasons : String → Option SkipReason}
    (hparse : parseAutoKey key = some (arch, c))
    (ho : ours (input.next newID previous) key = some p) :
    (keyPlan (input.next newID previous) reasons key arch c).changes = [] := by
  obtain ⟨hm, hours, hkey⟩ := ours_mem ho
  have hbackend : keyBackend (input.next newID previous) key = some p.backend := by
    rw [keyBackend, ho]
  rw [keyPlan_of_kept _ reasons key arch c ho]
  suffices hnone : keptChange (input.next newID previous) reasons key arch c p
      (membersOf (input.next newID previous) key) = none by
    rw [hnone]
    rfl
  apply keptChange_next newID previous reasons
  rcases next_kept_cases newID previous hin hm hours hkey hparse with
    ⟨q, hq, hpq⟩ | ⟨b, id, hnone, hmake, hpq⟩
  · have hsame : keyBackend (input.next newID previous) key = keyBackend input key := by
      obtain ⟨-, -, hb⟩ := desiredPool_settings
      rw [hbackend, hpq, hb, keyBackend, hq]
    rw [membersOf_next newID previous hsame, hpq]
    exact keptChange_desiredPool reasons hsize
  obtain ⟨hb, hmembers, -⟩ := creatable_eq_some hmake
  have hsame : keyBackend (input.next newID previous) key = keyBackend input key := by
    rw [hbackend, hb, hpq]
    rfl
  rw [membersOf_next newID previous hsame, hpq]
  exact keptChange_createdPool reasons hsize hmembers

omit hin hsize in
theorem ours_next_of_creatable (hparse : parseAutoKey key = some (arch, c))
    (ho : ours input key = none) (hmake : creatable input key arch c = some b) :
    ours (input.next newID previous) key ≠ none := by
  obtain ⟨-, hmembers, -⟩ := creatable_eq_some hmake
  obtain ⟨h, hh⟩ := exists_mem_of_ne_nil _ hmembers
  have hkeys : key ∈ orderedKeys input :=
    mem_orderedKeys.mpr (.inl ⟨h, (mem_membersOf.mp hh).1⟩)
  obtain ⟨known, hknown⟩ := planKeys_changes_of_mem _ hkeys hparse
  rcases keyPlan_of_none input known key arch c ho with
    ⟨hno, -⟩ | ⟨b', cause, hb', hchanges, -⟩
  · rw [hmake] at hno
    cases hno
  rw [hchanges] at hknown
  have hch := hknown _ (mem_singleton_self _)
  have hpool := mem_next_created newID previous (mem_append_left _ hch) rfl
  have hkey := createdPool_autoKey hparse hb'
  intro hnone
  refine ours_ne_none hpool ?_ ?_
  · rw [isOurs, Bool.and_eq_true, beq_iff_eq]
    refine ⟨?_, rfl⟩
    apply fromHosts_of_parse
    exact (congrArg parseAutoKey hkey).trans hparse
  · exact (congrArg (ours (input.next newID previous)) hkey).trans hnone

omit hsize in
theorem creatable_next (hparse : parseAutoKey key = some (arch, c))
    (ho : ours (input.next newID previous) key = none) :
    creatable (input.next newID previous) key arch c = none := by
  have hours : ours input key = none := by
    cases hq : ours input key with
    | none => rfl
    | some q => exact absurd ho (ours_next_ne_none newID previous hin hq)
  have hsame : keyBackend (input.next newID previous) key = keyBackend input key := by
    rw [keyBackend, ho, keyBackend, hours]
    rfl
  cases hmake : creatable (input.next newID previous) key arch c with
  | none => rfl
  | some b =>
    exfalso
    obtain ⟨hb, hmembers, hfree⟩ := creatable_eq_some hmake
    rw [hsame] at hb
    rw [membersOf_next newID previous hsame] at hmembers
    -- the last pass was free to make the pool, so it did, and it would be there
    have hfirst : autoCollision input arch c = none := by
      cases hclash : autoCollision input arch c with
      | none => rfl
      | some clash =>
        exact absurd hfree (autoCollision_next newID previous hin hclash)
    have hmade : creatable input key arch c = some b := by
      have hempty := isEmpty_eq_false_iff.mpr hmembers
      simp [creatable, hb, hempty, hfirst, Option.filter_some]
    exact ours_next_of_creatable newID previous hparse hours hmade ho

theorem keyPlan_next (reasons : String → Option SkipReason)
    (hparse : parseAutoKey key = some (arch, c)) :
    (keyPlan (input.next newID previous) reasons key arch c).changes = [] := by
  cases ho : ours (input.next newID previous) key with
  | some p =>
    exact keyPlan_next_of_kept newID previous hin hsize hparse ho
  | none =>
    rcases keyPlan_of_none _ reasons key arch c ho with ⟨-, hnone, -⟩ | ⟨b, cause, hb, -⟩
    · exact hnone
    · rw [creatable_next newID previous hin hparse ho] at hb
      cases hb

theorem planKeys_next (reasons : String → Option SkipReason) (keys : List String) :
    (planKeys (input.next newID previous) reasons keys).changes = [] := by
  induction keys generalizing reasons with
  | nil => rfl
  | cons key rest ih =>
    rw [planKeys]
    cases hparse : parseAutoKey key with
    | none => exact ih reasons
    | some ac =>
      have hhead := keyPlan_next newID previous hin hsize
        (noteLeftOut reasons (leftOut (input.next newID previous) key)) hparse
      simp [AutoPoolPlan.add, hhead, ih]

theorem planAutoPools_next : (planAutoPools (input.next newID previous)).changes = [] := by
  have hkeyed := planKeys_next newID previous hin hsize
  have helse : (elsewhere (input.next newID previous)).filterMap elsewhereChange = [] := by
    rw [filterMap_eq_nil_iff]
    intro p hp
    exact next_elsewhere newID previous hin hp
  simp [planAutoPools, hkeyed, helse]

end

def countedUnder (input : AutoPoolInput) (h : Host) (key : String) : Prop :=
  h ∈ membersOf input key ∧
    (planAutoPools input).members.lookup key = some (hostNames (membersOf input key))

section
variable {input : AutoPoolInput}

theorem counts_lookup (key : String) :
    ((planAutoPools input).members.lookup key = if key ∈ orderedKeys input then
      (counted input key).map fun _ => hostNames (membersOf input key) else none) ∧
    (planAutoPools input).slots.lookup key = if key ∈ orderedKeys input then
      (counted input key).map fun p => autoSlots p (membersOf input key) input.sizeHook else none := by
  obtain ⟨hm, hs⟩ : (planAutoPools input).members = _ ∧ (planAutoPools input).slots = _ :=
    planKeys_counts input _ _
  rw [hm, hs, lookup_filterMap, lookup_filterMap]
  exact ⟨rfl, rfl⟩

theorem members_names (key : String) (names : List String)
    (h : (planAutoPools input).members.lookup key = some names) :
    names = hostNames (membersOf input key) := by
  rw [(counts_lookup _).1] at h
  split at h
  · cases hc : counted input key with
    | none =>
      rw [hc] at h
      cases h
    | some p =>
      rw [hc] at h
      exact (Option.some.inj h).symm
  · cases h

theorem counted_once (h : Host) (key key' : String) (hk : countedUnder input h key)
    (hk' : countedUnder input h key') : key = key' := by
  obtain ⟨⟨-, h1⟩, -⟩ := mem_membersOf.mp hk.1
  obtain ⟨⟨-, h2⟩, -⟩ := mem_membersOf.mp hk'.1
  exact Option.some.inj (h1.symm.trans h2)

theorem skipped_not_member {s : HostSkip} (hs : s ∈ (planAutoPools input).skipped) :
    s.host ∈ input.hosts ∧ ∀ key, s.host ∉ membersOf input key := by
  rcases mem_append.mp hs with hfirst | hlater
  · obtain ⟨h, hh, hskip⟩ := mem_filterMap.mp hfirst
    obtain ⟨he, hnone⟩ := skipOf_hostKey hskip
    rw [sortedHosts, mem_sortStableFunc] at hh
    rw [he]
    refine ⟨hh, ?_⟩
    intro key hm
    obtain ⟨⟨-, hkey⟩, -⟩ := mem_membersOf.mp hm
    rw [hnone] at hkey
    cases hkey
  · obtain ⟨key, hleft⟩ := planKeys_skipped _ hlater
    obtain ⟨⟨hh, hkey⟩, hno⟩ := mem_leftOut.mp hleft
    refine ⟨hh, ?_⟩
    intro key' hm
    obtain ⟨⟨-, hkey'⟩, hyes⟩ := mem_membersOf.mp hm
    obtain rfl : key = key' := Option.some.inj (hkey.symm.trans hkey')
    rw [hno] at hyes
    cases hyes

theorem skipped_not_counted (hin : input.Proper) (h : Host) (key : String)
    (hc : countedUnder input h key) (s : HostSkip) (hs : s ∈ (planAutoPools input).skipped) :
    s.host.id ≠ h.id := by
  intro hid
  obtain ⟨hhost, hno⟩ := skipped_not_member hs
  obtain ⟨⟨hh, -⟩, -⟩ := mem_membersOf.mp hc.1
  have heq : s.host = h := inj_on_of_nodup_map hin.hosts hhost hh hid
  exact hno key (heq ▸ hc.1)

end

theorem hostRoomFor_room_nonneg {h : Host} {p : Pool} (hcap : 0 ≤ h.capacity) :
    0 ≤ (hostRoomFor h p).room := by
  have hslots := effectiveCapacity_nonneg h hcap
  unfold hostRoomFor
  dsimp only
  split
  · exact le_rfl
  split
  · exact le_rfl
  split
  · exact le_rfl
  split
  · exact hslots
  · exact le_min (le_max_right _ _) hslots

theorem autoSlots_nonneg {p : Pool} {hosts : List Host} {size : Pool → Pool}
    (hcap : ∀ h ∈ hosts, 0 ≤ h.capacity) : 0 ≤ autoSlots p hosts size := by
  apply sum_nonneg
  intro room hroom
  obtain ⟨h, hh, rfl⟩ := mem_map.mp hroom
  exact hostRoomFor_room_nonneg (hcap h hh)

def withinSlots (p : Pool) (slots : Int) : Prop :=
  0 ≤ p.minRunners ∧ p.minRunners ≤ p.maxRunners ∧ p.maxRunners ≤ slots

variable {slots : Int}

theorem capped_bounds {cap : Int} (hs : 0 ≤ slots) :
    0 ≤ capped slots cap ∧ capped slots cap ≤ slots := by
  unfold capped
  split <;> omega

variable {p : Pool}

theorem withLimits_withinSlots (hs : 0 ≤ slots) (hmin : 0 ≤ p.autoMin) :
    withinSlots (withLimits p slots) slots := by
  obtain ⟨h0, hle⟩ := capped_bounds hs
  exact ⟨le_min hmin h0, min_le_right _ _, hle⟩

theorem limited_withinSlots (empty : Bool) (hs : 0 ≤ slots) (hmin : 0 ≤ p.autoMin) :
    withinSlots (limited p slots empty) slots := by
  cases empty with
  | true => exact ⟨le_rfl, le_rfl, hs⟩
  | false => exact withLimits_withinSlots hs hmin

def AutoPoolPlan.slotsOf (plan : AutoPoolPlan) (key : String) : Int :=
  (plan.slots.lookup key).getD 0

section
variable {input : AutoPoolInput}

theorem slotsOf_counted (hkey : key ∈ orderedKeys input) (hc : counted input key = some p) :
    (planAutoPools input).slotsOf key = autoSlots p (membersOf input key) input.sizeHook := by
  rw [AutoPoolPlan.slotsOf, (counts_lookup _).2, if_pos hkey, hc]
  rfl

theorem slotsOf_no_members (h : ((planAutoPools input).members.lookup key).getD [] = []) :
    (planAutoPools input).slotsOf key = 0 := by
  rw [(counts_lookup _).1] at h
  rw [AutoPoolPlan.slotsOf, (counts_lookup _).2]
  split
  · rename_i hkey
    rw [if_pos hkey] at h
    cases hc : counted input key with
    | none => rfl
    | some p =>
      rw [hc] at h
      have hnone : membersOf input key = [] := map_eq_nil_iff.mp h
      rw [hnone]
      rfl
  · rfl

variable (hcap : ∀ h ∈ input.hosts, 0 ≤ h.capacity)
include hcap

theorem membersOf_capacity : ∀ h ∈ membersOf input key, 0 ≤ h.capacity := by
  intro h hh
  exact hcap h (mem_membersOf.mp hh).1.1

theorem slotsOf_nonneg : 0 ≤ (planAutoPools input).slotsOf key := by
  rw [AutoPoolPlan.slotsOf, (counts_lookup _).2]
  split
  · cases counted input key with
    | none => exact le_rfl
    | some p => exact autoSlots_nonneg (membersOf_capacity hcap)
  · exact le_rfl

variable (hmin : ∀ p ∈ input.pools, 0 ≤ p.autoMin)
include hmin

theorem change_withinSlots {ch : AutoPoolChange} (hch : ch ∈ (planAutoPools input).changes) :
    withinSlots ch.after ((planAutoPools input).slotsOf ch.key) := by
  cases hb : ch.before with
  | some p =>
    cases replaces_of_change hch hb with
    | kept arch c hparse hours hafter =>
      obtain ⟨hp, ho, hkey⟩ := ours_mem hours
      have hkeys : ch.key ∈ orderedKeys input :=
        mem_orderedKeys.mpr (.inr ⟨p, hp, ho, hkey⟩)
      have hcount : counted input ch.key = some (reshape input p arch c) := by
        rw [counted, hparse, Option.bind_some, countedPool, hours]
      rw [slotsOf_counted hkeys hcount, hafter]
      apply limited_withinSlots
      · exact autoSlots_nonneg (membersOf_capacity hcap)
      · exact hmin p hp
    | moved helse hkey hafter =>
      rw [hafter]
      exact ⟨le_rfl, le_rfl, slotsOf_nonneg hcap⟩
  | none =>
    obtain ⟨arch, c, b, hparse, hours, hmake, hafter⟩ := makes_of_change hch hb
    obtain ⟨-, hmembers, -⟩ := creatable_eq_some hmake
    obtain ⟨h, hh⟩ := exists_mem_of_ne_nil _ hmembers
    have hkeys : ch.key ∈ orderedKeys input :=
      mem_orderedKeys.mpr (.inl ⟨h, (mem_membersOf.mp hh).1⟩)
    have hcount : counted input ch.key = some (newAutoPool input arch c b) := by
      rw [counted, hparse, Option.bind_some, countedPool, hours, hmake]
      rfl
    rw [slotsOf_counted hkeys hcount, hafter]
    apply withLimits_withinSlots
    · exact autoSlots_nonneg (membersOf_capacity hcap)
    · exact le_rfl

end

/-- Keeping pools for hosts settles in one pass, counts a host once, and makes no pool larger
than its hosts. -/
theorem planAutoPools_settles (input : AutoPoolInput) (hin : input.Proper) :
    (readsSettings input.sizeHook → ∀ newID previous,
      (planAutoPools (input.next newID previous)).changes = []) ∧
    (∀ key names, (planAutoPools input).members.lookup key = some names →
      names = hostNames (membersOf input key)) ∧
    (∀ h key key', countedUnder input h key → countedUnder input h key' → key = key') ∧
    (∀ h key, countedUnder input h key → ∀ s ∈ (planAutoPools input).skipped, s.host.id ≠ h.id) ∧
    ((∀ h ∈ input.hosts, 0 ≤ h.capacity) → (∀ p ∈ input.pools, 0 ≤ p.autoMin) →
      ∀ ch ∈ (planAutoPools input).changes,
        withinSlots ch.after ((planAutoPools input).slotsOf ch.key) ∧
        (((planAutoPools input).members.lookup ch.key).getD [] = [] →
          (planAutoPools input).slotsOf ch.key = 0)) := by
  refine ⟨?_, members_names, counted_once, skipped_not_counted hin, ?_⟩
  · intro hsize newID previous
    exact planAutoPools_next newID previous hin hsize
  · intro hcap hmin ch hch
    exact ⟨change_withinSlots hcap hmin hch, slotsOf_no_members⟩

def smallHost : Host :=
  { id := "h1", name := "h1", arch := "amd64", capacity := 2, backends := ["docker"]
    sizeClass := some .small, cpus := 4, memoryMB := 8192 }

def oneHost : AutoPoolInput := { now := 0, hosts := [smallHost], installationID := "i1" }

def warmPool (warm : Int) : Pool :=
  { id := "p1", name := "zoomies-small", installationID := "i1", autoKey := "amd64/small"
    autoMin := warm }

def readsMaximum (p : Pool) : Pool :=
  if p.maxRunners > 0 then { p with sizeFromProfile := false, resources := { cpus := 100 } } else p

/-- A hook that reads the maximum never settles; a negative warm count or capacity gives a
negative minimum. -/
theorem planAutoPools_unsettled : ({ oneHost with size := some readsMaximum }.Proper ∧
      (planAutoPools ({ oneHost with size := some readsMaximum }.next Pool.id
        oneHost.previous)).changes ≠ []) ∧
    ({ oneHost with pools := [warmPool (-1)] }.Proper ∧
      ∃ ch ∈ (planAutoPools { oneHost with pools := [warmPool (-1)] }).changes,
        ch.after.minRunners < 0) ∧
    ({ oneHost with hosts := [{ smallHost with capacity := -2 }] }.Proper ∧
      ∃ ch ∈ (planAutoPools { oneHost with hosts := [{ smallHost with capacity := -2 }] }).changes,
        ch.after.minRunners < 0) := by
  refine ⟨⟨⟨by decide, by decide, by decide⟩, ?_⟩, ⟨⟨by decide, by decide, by decide⟩, ?_⟩,
    ⟨by decide, by decide, by decide⟩, ?_⟩
  · rw [← length_pos_iff]
    decide +kernel
  · decide +kernel
  · decide +kernel

def threePools : AutoPoolInput :=
  { now := 0
    hosts :=
      [smallHost, { smallHost with id := "h2", name := "h2", arch := "arm64", cordoned := true }]
    installationID := "i1"
    pools :=
      [{ id := "p1", name := "zoomies-arm64-small", installationID := "i1"
         autoKey := "arm64/small", enabled := true, maxRunners := 2 },
        { id := "p2", name := "zoomies-large", installationID := "i0"
          autoKey := "amd64/large", enabled := true, maxRunners := 4 }]
    size := some fun p => Controller.sizingPool p {} }

theorem threePools_settles :
    ((planAutoPools threePools).changes.map fun ch => (ch.kind, ch.after.maxRunners)) =
      [(.create, 1), (.disable, 0), (.disable, 0)] ∧
    (planAutoPools (threePools.next Pool.name fun _ => none)).changes = [] ∧
    ∀ ch ∈ (planAutoPools threePools).changes,
      withinSlots ch.after ((planAutoPools threePools).slotsOf ch.key) := by
  have h := planAutoPools_settles threePools ⟨by decide, by decide, by decide⟩
  refine ⟨by decide +kernel, h.1 readsSettings_sizingPool Pool.name _, ?_⟩
  intro ch hch
  exact (h.2.2.2.2 (by decide) (by decide) ch hch).1

end Zoomies.Scheduler
