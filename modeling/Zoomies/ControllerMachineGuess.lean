import Zoomies.ControllerMachineLooks
import Mathlib.Data.List.Induction

/-! A machine is created under one identity, and again only after it was looked for. -/
namespace Zoomies.Controller
open Zoomies.Go Zoomies.Store List

inductive PassEffect (a : StepAnswers) (r : MachineRow) : MachineRow → List ProviderCall → Prop
  | quiet (r' : MachineRow) (calls : List ProviderCall) (hs : Settles r r')
      (h : ∀ c ∈ calls, c.creates = false) : PassEffect a r r' calls
  | first (r' : MachineRow) (allocated ref : MachineRef) (hfree : r.resourceID = "")
      (halloc : a.allocate = .ok allocated)
      (href : ref = if allocated.name = "" then { allocated with name := r.name } else allocated)
      (hname : r'.name = r.name) (hid : r'.resourceID ≠ "")
      (hresource : (r'.resourceZone, r'.resourceID) = ref.resource) :
      PassEffect a r r' [.allocate a.allocate, .create ref a.create]
  | again (r' : MachineRow) (front : List ProviderCall) (look : ProviderCall)
      (hs : Settles r r') (hstate : r.state = .creating)
      (hfront : ∀ c ∈ front, c.creates = false) (hlook : look.missing = true)
      (hattempts : r.attempts ≠ 0) :
      PassEffect a r r' (front ++ [look, .create (machineRef (scanMachine r)) a.create])

theorem claim_cases {a : StepAnswers} {r : MachineRow} :
    (∃ r₁, claimMachineStep a (scanMachine r) (some r) = (some r₁, none) ∧ Settles r r₁) ∨
      ∃ r₁, claimMachineStep a (scanMachine r) (some r) = (some r₁, some (scanMachine r₁)) ∧
        Settles r r₁ ∧ r₁.state = r.state ∧ r₁.attempts = r.attempts := by
  unfold claimMachineStep
  split
  · split
    · exact .inr ⟨r, rfl, Settles.refl r, rfl, rfl⟩
    · exact .inl ⟨r, rfl, Settles.refl r⟩
  rcases claimMachineOperation_cases
    with ⟨e, h⟩ | ⟨_, kind, h⟩
  · left
    dsimp only
    rw [h]
    exact ⟨r, rfl, Settles.refl r⟩
  right
  dsimp only
  rw [h]
  exact ⟨_, rfl, ⟨rfl, rfl, rfl, fun h => h⟩, rfl, rfl⟩

/-- A pass is quiet, creates for the first time, or creates again. -/
theorem passEffect_machinePass {a : StepAnswers} {r : MachineRow} :
    ∃ r', (machinePass a (some r)).1 = some r' ∧ PassEffect a r r' (machinePass a (some r)).2 := by
  have hidle : PassEffect a r r [] :=
    PassEffect.quiet r [] (Settles.refl r) fun c hc => absurd hc not_mem_nil
  unfold machinePass
  dsimp only
  split
  · exact ⟨r, rfl, hidle⟩
  rename_i hstates
  split
  · exact ⟨r, rfl, hidle⟩
  rcases claim_cases with ⟨r₁, h, hs⟩ | ⟨r₁, h, hs, hstate, hattempts⟩
  · rw [h]
    exact ⟨r₁, rfl, PassEffect.quiet r₁ [] hs fun c hc => absurd hc not_mem_nil⟩
  rw [h]
  dsimp only
  unfold runMachineStep
  split
  · have hq := quiet_recordStepFailure a { row := some r₁, m := scanMachine r₁ }
      (scanMachine r₁).opID (.other "this machine may not be changed right now")
    obtain ⟨r₂, hr₂, hs₂⟩ := hq.row r₁ rfl
    refine ⟨r₂, hr₂, ?_⟩
    rw [hq.calls]
    exact PassEffect.quiet r₂ [] (hs.trans hs₂) fun c hc => absurd hc not_mem_nil
  split
  · rename_i hplanned
    have hsettle := quiet_settleStep a (scanMachine r₁).opID
      (stepPlanned a { row := some r₁, m := scanMachine r₁ })
    rcases planned_cases a { row := some r₁, m := scanMachine r₁ } rfl rfl
      with ⟨calls, hcalls, hq⟩ |
        ⟨allocated, ref, r₂, hfree, halloc, href, hname, hid, hresource, hrow, hcalls⟩
    · have hall := hq.trans hsettle
      obtain ⟨r₂, hr₂, hs₂⟩ := hall.row r₁ rfl
      refine ⟨r₂, hr₂, ?_⟩
      rw [hall.calls]
      exact PassEffect.quiet r₂ calls (hs.trans hs₂) hcalls
    obtain ⟨r₃, hr₃, hs₃⟩ := hsettle.row r₂ hrow
    refine ⟨r₃, hr₃, ?_⟩
    rw [hsettle.calls, hcalls]
    refine PassEffect.first r₃ allocated ref (hs.id.symm.trans hfree) halloc ?_
      (hs₃.name.trans (hname.trans hs.name)) ?_ ?_
    · rw [href]
      change (if _ then ({ allocated with name := r₁.name } : MachineRef) else _) = _
      rw [hs.name]
    · rw [hs₃.id]
      exact hid
    · rw [hs₃.id, hs₃.zone]
      exact hresource
  · rename_i hplanned
    have hcreating : r.state = .creating := by
      by_contra hother
      have hnot : r.state ≠ .planned := by
        intro hp
        exact hplanned (hstate.trans hp)
      exact hstates ⟨hnot, hother⟩
    have hsettle := quiet_settleStep a (scanMachine r₁).opID
      (stepCreating a { row := some r₁, m := scanMachine r₁ })
    obtain ⟨calls, hlooked, hq⟩ :=
      looked_creating a { row := some r₁, m := scanMachine r₁ } rfl
    have hall := hq.trans hsettle
    obtain ⟨r₂, hr₂, hs₂⟩ := hall.row r₁ rfl
    refine ⟨r₂, hr₂, ?_⟩
    rw [hall.calls]
    have href : machineRef (scanMachine r₁) = machineRef (scanMachine r) := by
      unfold machineRef
      change MachineRef.mk r₁.resourceZone
        (if r₁.resourceID = r₁.name then "" else r₁.resourceID) r₁.name = _
      rw [hs.zone, hs.id, hs.name]
      rfl
    cases hlooked with
    | looking _ hcalls => exact PassEffect.quiet r₂ calls (hs.trans hs₂) hcalls
    | again front look hfront hlook hat =>
      change PassEffect a r r₂ (front ++ [look, .create (machineRef (scanMachine r₁)) _])
      rw [href]
      refine PassEffect.again r₂ front look (hs.trans hs₂) hcreating hfront hlook ?_
      rw [← hattempts]
      exact hat

def unheardSince (calls : List ProviderCall) : Bool :=
  calls.foldl (fun unheard c => c.unheard || (unheard && !c.missing)) false

theorem unheardSince_of_create {front : List ProviderCall} {rest : List ProviderCall} {c : ProviderCall}
    (hc : c.unheard = true) (hrest : ∀ d ∈ rest, d.missing = false) :
    unheardSince (front ++ c :: rest) = true := by
  have hstays : ∀ later : List ProviderCall, (∀ d ∈ later, d.missing = false) →
      later.foldl (fun unheard c => c.unheard || (unheard && !c.missing)) true = true := by
    intro later
    induction later with
    | nil => exact fun _ => rfl
    | cons d later ih =>
      intro h
      rw [foldl_cons, h d mem_cons_self, Bool.not_false, Bool.and_true, Bool.or_true]
      exact ih fun e he => h e (mem_cons_of_mem d he)
  rw [unheardSince, foldl_append, foldl_cons, hc, Bool.true_or]
  exact hstays rest hrest

def TwiceLooked (calls : List ProviderCall) : Prop :=
  ∀ front c between d rest, calls = front ++ c :: (between ++ d :: rest) →
    c.unheard = true → d.creates = true → 2 ≤ between.countP ProviderCall.missing

theorem creates_of_unheard {c : ProviderCall} (h : c.unheard = true) : c.creates = true := by
  cases c with
  | create => rfl
  | _ => exact absurd h Bool.false_ne_true

theorem creates_append (calls new front between rest : List ProviderCall) (c d : ProviderCall)
    (h : calls ++ new = front ++ c :: (between ++ d :: rest)) :
    (∃ tail, calls = front ++ c :: (between ++ d :: tail)) ∨ (∃ before, new = before ++ d :: rest ∧
        ((∃ old, calls = front ++ c :: old ∧ between = old ++ before) ∨ c ∈ before)) := by
  have hsplit : calls ++ new = (front ++ c :: between) ++ d :: rest := by
    rw [h]
    simp
  rcases append_eq_append_iff.mp hsplit with ⟨before, hX, hnew⟩ | ⟨extra, hcalls, hd⟩
  · right
    refine ⟨before, hnew, ?_⟩
    rcases append_eq_append_iff.mp hX with ⟨old, hcalls, hc⟩ | ⟨extra, _, hbefore⟩
    · cases old with
      | nil =>
        right
        rw [nil_append] at hc
        rw [← hc]
        exact mem_cons_self
      | cons c' old =>
        left
        rw [cons_append, List.cons.injEq] at hc
        refine ⟨old, ?_, hc.2⟩
        rw [hcalls, hc.1]
    · right
      rw [hbefore]
      exact mem_append_right _ mem_cons_self
  · cases extra with
    | nil =>
      right
      refine ⟨[], ?_, .inl ⟨between, ?_, (append_nil _).symm⟩⟩
      · rw [nil_append] at hd
        exact hd.symm
      · rw [hcalls, append_nil]
    | cons d' tail =>
      left
      rw [cons_append, List.cons.injEq] at hd
      refine ⟨tail, ?_⟩
      rw [hcalls, hd.1]
      simp

theorem look_before {front before rest : List ProviderCall} {look last d : ProviderCall}
    (hfront : ∀ c ∈ front, c.creates = false) (hlook : look.creates = false)
    (hd : d.creates = true) (h : front ++ [look, last] = before ++ d :: rest) :
    before = front ++ [look] := by
  have hsplit : (front ++ [look]) ++ [last] = before ++ d :: rest := by
    rw [← h]
    simp
  have hnone : ∀ c ∈ front ++ [look], c.creates = false := by
    intro c hc
    rcases mem_append.mp hc with hf | hl
    · exact hfront c hf
    · rw [mem_singleton.mp hl]
      exact hlook
  rcases append_eq_append_iff.mp hsplit with ⟨extra, hbefore, hlast⟩ | ⟨extra, hbefore, hlast⟩
  · cases extra with
    | nil => rw [hbefore, append_nil]
    | cons e extra =>
      have hlen := congrArg List.length hlast
      simp at hlen
  cases extra with
  | nil => rw [hbefore, append_nil]
  | cons e extra =>
    rw [cons_append, List.cons.injEq] at hlast
    have hmem : d ∈ front ++ [look] := by
      rw [hbefore, hlast.1]
      exact mem_append_right _ mem_cons_self
    rw [hnone d hmem] at hd
    exact absurd hd Bool.false_ne_true

def AllocatesAs (name : String) (a : StepAnswers) : Prop :=
  ∀ ref, a.allocate = .ok ref → (ref.name = "" ∨ ref.name = name) ∧ ref.id ≠ name

structure Followed (named fresh : Prop) (name : String) (r : MachineRow)
    (calls : List ProviderCall) : Prop where
  name : r.name = name
  creating : r.state = .creating → r.resourceID ≠ ""
  identity : ∀ ref answer, .create ref answer ∈ calls →
    r.resourceID ≠ "" ∧ ref.resource = (r.resourceZone, r.resourceID)
  exact_ : named → ∀ ref answer, .create ref answer ∈ calls → ref = machineRef (scanMachine r)
  twice : fresh → TwiceLooked calls

section
variable {named fresh : Prop} {name : String} {a : StepAnswers} {r r' : MachineRow}
  {calls new : List ProviderCall}

theorem machineRef_of_settles (hs : Settles r r') :
    machineRef (scanMachine r') = machineRef (scanMachine r) := by
  change MachineRef.mk r'.resourceZone
    (if r'.resourceID = r'.name then "" else r'.resourceID) r'.name = _
  rw [hs.zone, hs.id, hs.name]
  rfl

theorem twice_of_quiet (htwice : TwiceLooked calls) (hnew : ∀ c ∈ new, c.creates = false) :
    TwiceLooked (calls ++ new) := by
  intro front c between d rest h hc hd
  rcases creates_append calls new front between rest c d h with ⟨tail, hold⟩ | ⟨before, hb, _⟩
  · exact htwice front c between d tail hold hc hd
  have hmem : d ∈ new := by
    rw [hb]
    exact mem_append_right _ mem_cons_self
  rw [hnew d hmem] at hd
  exact absurd hd Bool.false_ne_true

theorem twice_of_first {ref : MachineRef} {answer : Except CallError String}
    {allocated : Except CallError MachineRef}
    (hnone : ∀ c ∈ calls, c.creates = false) :
    TwiceLooked (calls ++ [.allocate allocated, .create ref answer]) := by
  intro front c between d rest h hc hd
  have hcreates := creates_of_unheard hc
  have hnew {tail : List ProviderCall} : calls ≠ front ++ c :: tail := by
    intro hold
    have hmem : c ∈ calls := by
      rw [hold]
      exact mem_append_right _ mem_cons_self
    rw [hnone c hmem] at hcreates
    exact absurd hcreates Bool.false_ne_true
  rcases creates_append calls _ front between rest c d h with
    ⟨tail, hold⟩ | ⟨before, hb, ⟨old, hold, _⟩ | hmem⟩
  · exact absurd hold hnew
  · exact absurd hold hnew
  have hbefore := look_before (fun c hc => absurd hc not_mem_nil) rfl hd hb
  rw [hbefore, nil_append, mem_singleton] at hmem
  rw [hmem] at hcreates
  exact absurd hcreates Bool.false_ne_true

theorem twice_of_again {front : List ProviderCall} {look : ProviderCall} {last : ProviderCall}
    (htwice : TwiceLooked calls) (hheard : unheardSince calls = false)
    (hfront : ∀ c ∈ front, c.creates = false) (hlook : look.missing = true) :
    TwiceLooked (calls ++ (front ++ [look, last])) := by
  intro before c between d rest h hc hd
  have hcreates := creates_of_unheard hc
  have hlook' := creates_of_missing hlook
  rcases creates_append calls _ before between rest c d h with
    ⟨tail, hold⟩ | ⟨part, hb, hcases⟩
  · exact htwice before c between d tail hold hc hd
  have hpart := look_before hfront hlook' hd hb
  rcases hcases with ⟨old, hold, hbetween⟩ | hmem
  · -- one look since the create that went unheard, and this one
    have hseen : 0 < old.countP ProviderCall.missing := by
      rw [countP_pos_iff]
      by_contra hno
      have hunheard : unheardSince calls = true := by
        rw [hold]
        refine unheardSince_of_create hc fun e he => ?_
        by_contra hmissing
        exact hno ⟨e, he, by simpa using hmissing⟩
      rw [hheard] at hunheard
      exact Bool.false_ne_true hunheard
    rw [hbetween, hpart, countP_append, countP_append, countP_singleton, hlook]
    simp only [if_true]
    omega
  · rw [hpart] at hmem
    rcases mem_append.mp hmem with hf | hl
    · rw [hfront c hf] at hcreates
      exact absurd hcreates Bool.false_ne_true
    · rw [mem_singleton.mp hl, hlook'] at hcreates
      exact absurd hcreates Bool.false_ne_true

/-- One pass keeps the books of a machine's creates. -/
theorem followed_step (hf : Followed named fresh name r calls) (heffect : PassEffect a r r' new)
    (hnamed : named → AllocatesAs name a) (hfirst : fresh → unheardSince calls = true →
      (∃ c ∈ new, c.missing = true) → r.attempts = 0) :
    Followed named fresh name r' (calls ++ new) := by
  cases heffect with
  | quiet _ hs hnew =>
    have hold : ∀ ref answer, .create ref answer ∈ calls ++ new → .create ref answer ∈ calls := by
      intro ref answer hmem
      rcases mem_append.mp hmem with h | h
      · exact h
      · exact absurd (hnew _ h) (fun hfalse => Bool.false_ne_true hfalse.symm)
    refine ⟨hs.name.trans hf.name, fun hc => ?_, fun ref answer hmem => ?_,
      fun hn ref answer hmem => ?_, fun h => twice_of_quiet (hf.twice h) hnew⟩
    · rw [hs.id]
      exact hf.creating (hs.state hc)
    · rw [hs.id, hs.zone]
      exact hf.identity ref answer (hold ref answer hmem)
    · rw [machineRef_of_settles hs]
      exact hf.exact_ hn ref answer (hold ref answer hmem)
  | first allocated ref hfree halloc href hname hid hresource =>
    -- nothing was created before: a create needs an identity in the row
    have hnone : ∀ c ∈ calls, c.creates = false := by
      intro c hc
      cases c with
      | create ref answer => exact absurd hfree (hf.identity ref answer hc).1
      | _ => rfl
    have honly : ∀ other answer,
        .create other answer ∈ calls ++ [.allocate a.allocate, .create ref a.create] →
        other = ref := by
      intro other answer hmem
      rcases mem_append.mp hmem with h | h
      · exact absurd (hnone _ h) (fun hfalse => Bool.false_ne_true hfalse.symm)
      simp only [mem_cons, reduceCtorEq, ProviderCall.create.injEq, not_mem_nil,
        or_false, false_or] at h
      exact h.1
    refine ⟨hname.trans hf.name, fun _ => hid, fun other answer hmem => ⟨hid, ?_⟩,
      fun hn other answer hmem => ?_, fun _ => twice_of_first hnone⟩
    · rw [honly other answer hmem]
      exact hresource.symm
    rw [honly other answer hmem]
    obtain ⟨hown, hne⟩ := hnamed hn allocated halloc
    rw [← hf.name] at hown hne
    have hrefname : ref.name = r.name := by
      rw [href]
      split
      · rfl
      · rename_i hset
        exact hown.resolve_left hset
    have hrefid : ref.id = allocated.id := by
      rw [href]
      split <;> rfl
    obtain ⟨hz, hi⟩ := Prod.mk.inj hresource
    have hrecorded : r'.resourceID = if ref.id = "" then ref.name else ref.id := hi
    change ref = MachineRef.mk r'.resourceZone
      (if r'.resourceID = r'.name then "" else r'.resourceID) r'.name
    rw [hz, hname, hrecorded, hrefname]
    by_cases hempty : ref.id = ""
    · rw [if_pos hempty, if_pos rfl, ← hempty, ← hrefname]
    · rw [if_neg hempty, if_neg (by rw [hrefid]; exact hne), ← hrefname]
  | again front look hs hstate hfront hlook hattempts =>
    have hid := hf.creating hstate
    have hheard : fresh → unheardSince calls = false := by
      intro hfresh
      apply Bool.eq_false_iff.mpr
      intro hun
      refine hattempts (hfirst hfresh hun ⟨look, ?_, hlook⟩)
      exact mem_append_right _ mem_cons_self
    have hsame : ∀ ref answer, .create ref answer ∈
        front ++ [look, .create (machineRef (scanMachine r)) a.create] →
        ref = machineRef (scanMachine r) := by
      intro ref answer hmem
      rcases mem_append.mp hmem with h | h
      · exact absurd (hfront _ h) (fun hfalse => Bool.false_ne_true hfalse.symm)
      rcases mem_cons.mp h with hl | hl
      · rw [← hl] at hlook
        exact absurd hlook Bool.false_ne_true
      have heq := mem_singleton.mp hl
      rw [ProviderCall.create.injEq] at heq
      exact heq.1
    refine ⟨hs.name.trans hf.name, fun hc => ?_, fun ref answer hmem => ?_,
      fun hn ref answer hmem => ?_, fun h => twice_of_again (hf.twice h) (hheard h) hfront hlook⟩
    · rw [hs.id]
      exact hid
    · rw [hs.id, hs.zone]
      rcases mem_append.mp hmem with h | h
      · exact hf.identity ref answer h
      · rw [hsame ref answer h]
        exact ⟨hid, resource_machineRef hid⟩
    rw [machineRef_of_settles hs]
    rcases mem_append.mp hmem with h | h
    · exact hf.exact_ hn ref answer h
    · exact hsame ref answer h

end

theorem machinePasses_concat (passes : List StepAnswers) (a : StepAnswers)
    (row : Option MachineRow) : machinePasses (passes ++ [a]) row =
      ((machinePass a (machinePasses passes row).1).1,
        (machinePasses passes row).2 ++ (machinePass a (machinePasses passes row).1).2) := by
  unfold machinePasses
  rw [foldl_append]
  rfl

def FirstLooksFresh (r₀ : MachineRow) (passes : List StepAnswers) : Prop :=
  ∀ before a after, passes = before ++ a :: after →
    unheardSince (machinePasses before (some r₀)).2 = true →
    (∃ c ∈ (machinePass a (machinePasses before (some r₀)).1).2, c.missing = true) →
    ∀ r, (machinePasses before (some r₀)).1 = some r → r.attempts = 0

theorem followed_run {passes : List StepAnswers} {r₀ : MachineRow}
    (hplanned : r₀.state = .planned) : ∃ r, (machinePasses passes (some r₀)).1 = some r ∧
      Followed (∀ a ∈ passes, AllocatesAs r₀.name a) (FirstLooksFresh r₀ passes) r₀.name r
        (machinePasses passes (some r₀)).2 := by
  induction passes using List.reverseRecOn with
  | nil =>
    refine ⟨r₀, rfl, rfl, fun hc => ?_, fun _ _ h => absurd h not_mem_nil,
      fun _ _ _ h => absurd h not_mem_nil, ?_⟩
    · rw [hplanned] at hc
      exact absurd hc (by decide)
    · intro _ front c between d rest h
      exact absurd h.symm (by simp [machinePasses])
  | append_singleton passes a ih =>
    obtain ⟨r, hr, hf⟩ := ih
    obtain ⟨r', hr', heffect⟩ := passEffect_machinePass
    have hearlier : FirstLooksFresh r₀ (passes ++ [a]) → FirstLooksFresh r₀ passes :=
      fun hfirst before b after h => hfirst before b (after ++ [a]) (by simp [h])
    refine ⟨r', ?_, ?_⟩
    · rw [machinePasses_concat, hr]
      exact hr'
    rw [machinePasses_concat, hr]
    have hweaker : Followed (∀ b ∈ passes ++ [a], AllocatesAs r₀.name b)
        (FirstLooksFresh r₀ (passes ++ [a])) r₀.name r (machinePasses passes (some r₀)).2 :=
      ⟨hf.name, hf.creating, hf.identity,
        fun hall => hf.exact_ fun b hb => hall b (mem_append_left _ hb),
        fun hfirst => hf.twice (hearlier hfirst)⟩
    refine followed_step hweaker heffect
      (fun hall => hall a (mem_append_right _ (mem_singleton.mpr rfl))) fun hfirst hun hmissing => ?_
    have hlast := hfirst passes a [] rfl hun
    rw [hr] at hlast
    exact hlast hmissing r rfl

theorem identity_of_effect {a : StepAnswers} {r r' : MachineRow} {calls : List ProviderCall}
    (h : PassEffect a r r' calls) (hid : r.resourceID ≠ "") :
    r'.resourceZone = r.resourceZone ∧ r'.resourceID = r.resourceID := by
  cases h with
  | quiet _ hs _ | again _ _ hs => exact ⟨hs.zone, hs.id⟩
  | first _ _ hfree => exact absurd hfree hid

theorem identity_run {passes : List StepAnswers} {r : MachineRow} (hid : r.resourceID ≠ "") :
    ∃ r', (machinePasses passes (some r)).1 = some r' ∧ r'.resourceZone = r.resourceZone ∧
      r'.resourceID = r.resourceID := by
  induction passes using List.reverseRecOn with
  | nil => exact ⟨r, rfl, rfl, rfl⟩
  | append_singleton passes a ih =>
    obtain ⟨r₁, hr₁, hzone, hres⟩ := ih
    obtain ⟨r₂, hr₂, heffect⟩ := passEffect_machinePass
    have hkept := identity_of_effect heffect (by rw [hres]; exact hid)
    refine ⟨r₂, ?_, hkept.1.trans hzone, hkept.2.trans hres⟩
    rw [machinePasses_concat, hr₁]
    exact hr₂

theorem machinePasses_append_fst (first rest : List StepAnswers) (row : Option MachineRow) :
    (machinePasses (first ++ rest) row).1 = (machinePasses rest (machinePasses first row).1).1 := by
  induction rest using List.reverseRecOn with
  | nil =>
    rw [append_nil]
    rfl
  | append_singleton rest a ih =>
    rw [← append_assoc, machinePasses_concat, machinePasses_concat, ih]

/-- Over every run of a machine's passes all its creates name one resource, which the row names for
good; and it is not created again before it was looked for in vain twice, when the first look after
a create that went unheard finds no attempt counted. -/
theorem never_created_on_a_guess (r₀ : MachineRow) (passes : List StepAnswers)
    (hplanned : r₀.state = .planned) :
    (FirstLooksFresh r₀ passes → TwiceLooked (machinePasses passes (some r₀)).2) ∧
    (∀ ref answer ref' answer', .create ref answer ∈ (machinePasses passes (some r₀)).2 →
      .create ref' answer' ∈ (machinePasses passes (some r₀)).2 → ref.resource = ref'.resource ∧
        ((∀ a ∈ passes, AllocatesAs r₀.name a) → ref = ref')) ∧
    ∀ before after, passes = before ++ after → ∀ r r', (machinePasses before (some r₀)).1 = some r →
      (machinePasses passes (some r₀)).1 = some r' → r.resourceID ≠ "" →
      r'.resourceZone = r.resourceZone ∧ r'.resourceID = r.resourceID := by
  obtain ⟨r, _, hf⟩ := followed_run hplanned
  refine ⟨hf.twice, ?_, ?_⟩
  · intro ref answer ref' answer' h h'
    refine ⟨(hf.identity ref answer h).2.trans (hf.identity ref' answer' h').2.symm, ?_⟩
    intro hnamed
    exact (hf.exact_ hnamed ref answer h).trans (hf.exact_ hnamed ref' answer' h').symm
  intro before after hpasses r r' hr hr' hid
  rw [hpasses, machinePasses_append_fst, hr] at hr'
  obtain ⟨r₁, hr₁, hzone, hres⟩ := identity_run hid
  have hsame : r' = r₁ := Option.some.inj (hr'.symm.trans hr₁)
  rw [hsame]
  exact ⟨hzone, hres⟩

def reservation : MachineRow := { id := "m1", name := "zoomies-m1", createdAt := 1 }

def passAt (minute : Int) : StepAnswers where
  passNow := unixEpoch + minute * 60 * second
  now := unixEpoch + minute * 60 * second
  createTimeout := 20 * 60 * second
  ambiguityTimeout := 10 * 60 * second

def unheardAt (minute : Int) : StepAnswers :=
  { passAt minute with
    allocate := .ok { zone := "pve-1", id := "143" }
    create := .error (.sentinel .ambiguous) }

def missingAt (minute : Int) : StepAnswers :=
  { passAt minute with
    inspect := .error (.sentinel .notFound)
    create := .ok "task" }

theorem never_created_on_a_guess_twice :
    TwiceLooked (machinePasses [unheardAt 1, missingAt 2, missingAt 3] (some reservation)).2 ∧
      (machinePasses [unheardAt 1, missingAt 2, missingAt 3] (some reservation)).2.countP
        ProviderCall.creates = 2 := by
  refine ⟨(never_created_on_a_guess reservation [unheardAt 1, missingAt 2, missingAt 3] rfl).1 ?_,
    by decide +kernel⟩
  intro before a after hpasses hunheard _ r hr
  match before with
  | [] => exact absurd hunheard (by decide)
  | [b] =>
    -- the create went unheard in the first pass, which counts no attempt
    rw [show b = unheardAt 1 from (List.cons.inj hpasses).1.symm] at hr
    have hzero : (machinePasses [unheardAt 1] (some reservation)).1.all
        (fun r => r.attempts == 0) = true := by
      decide +kernel
    rw [hr] at hzero
    exact beq_iff_eq.mp hzero
  | [b, c] =>
    -- the second pass has looked, so that the third look is not the first
    obtain ⟨hb, hrest⟩ := List.cons.inj hpasses
    rw [← hb, ← (List.cons.inj hrest).1] at hunheard
    exact absurd hunheard (by decide +kernel)
  | b :: c :: d :: more =>
    have hlen := congrArg List.length hpasses
    simp at hlen

/-- A provider that could not be reached leaves an attempt counted, and one look in vain is then
enough for another create. -/
theorem created_after_one_look :
    (machinePasses [passAt 1, unheardAt 2, missingAt 3] (some reservation)).2.map
        (fun c => (c.unheard, c.missing, c.creates)) =
      [(false, false, false), (false, false, false), (true, false, true), (false, true, false),
        (false, false, true)] := by
  decide +kernel

end Zoomies.Controller
