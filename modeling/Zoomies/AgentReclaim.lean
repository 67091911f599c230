import Zoomies.AgentThrottle

/-! CPU is taken back before it is lent again, exactly when no raise passes for a reduction or there
is nothing to take back. -/
namespace Zoomies.Agent
open Zoomies.Go Zoomies.Store List

section
variable (e : Surroundings unrounded) (a : AgentCPU) (quota : String → Halves)

structure ReclaimsFirst : Prop where
  -- at every moment of the pass the containers hold no more than they did or the plan asks for, and
  -- a runner is raised only when every reduction was answered
  bounded : ∀ k c, (a.todo e)[k]? = some c → ∀ x ∈ (a.passAt e quota k).moments e c,
      a.total x ≤ max (a.total quota) (a.plannedTotal e quota)
  raised : ∀ k c, (a.todo e)[k]? = some c → ∀ x ∈ (a.passAt e quota k).moments e c,
      ((a.passAt e quota k).quota c.handle).held < (x c.handle).held → ∀ b ∈ a.todo e,
        (e.labels b.handle).asks b.cpus < (quota b.handle).held →
        ∃ answer, (b.handle, answer) ∈ (a.passAt e quota k).calls ∧ answer ≠ .refused

def AgentCPU.fits (bound : TrackedCPU → ℚ) (handle : String) (q : Halves) : Prop :=
  ∀ r ∈ a.runners, r.handle = handle → q.held ≤ bound r

variable {e a quota} {r : TrackedCPU} {c : Candidate} {bound : TrackedCPU → ℚ}

theorem total_le {x : String → Halves} (h : ∀ handle, a.fits bound handle (x handle)) :
    a.total x ≤ (a.runners.map bound).sum :=
  sum_le_sum fun r hr => h r.handle r hr rfl

theorem planned_of_due (h : Due e a r c) : a.planned e quota r = a.target e r := by
  rw [AgentCPU.planned, if_pos h.due]

section
variable (ha : Idle e a quota)
include ha

theorem Due.of_handle (h : Due e a r c) {s : TrackedCPU} (hs : s ∈ a.runners)
    (he : s.handle = c.handle) : s = r :=
  inj_on_of_nodup_map ha.handles hs h.mem (he.trans h.handle)

theorem Due.settles (h : Due e a r c) :
    Settles (quota r.handle) (a.target e r) (e.call quota c) := by
  rw [← h.target, Surroundings.call, h.handle]
  exact updateResources_settles h.pos (ha.paired r h.mem)

theorem call_fits (h : Due e a r c) (hheld : (quota r.handle).held ≤ bound r)
    (htarget : a.target e r ≤ bound r) : ∀ x ∈ (e.call quota c).1, a.fits bound c.handle x := by
  intro x hx s hs he
  rw [h.of_handle ha hs he]
  exact ((h.settles ha).within x hx).trans (max_le hheld htarget)

theorem pass_start : (a.pass e quota).reclaimFailed = false := by
  rw [AgentCPU.pass, AgentCPU.reclaimPending, any_eq_false]
  intro r hr
  rw [ha.free r hr]
  simp

variable {k : Nat} (hk : (a.todo e)[k]? = some c)
include hk

theorem passAt_untouched : (a.passAt e quota k).quota c.handle = quota c.handle :=
  turns_other (not_mem_take_of_nodup hk (todo_handles ha.handles))

variable {x : String → Halves}
  (hx : x ∈ (a.passAt e quota k).moments e c)
include hx

/-- A bound that every runner keeps, and every runner asked to change is to keep, holds of the
containers at every moment of the pass. -/
theorem total_within (h0 : ∀ r ∈ a.runners, (quota r.handle).held ≤ bound r)
    (hb : ∀ r ∈ a.runners, a.due e r = true → a.target e r ≤ bound r) :
    a.total x ≤ (a.runners.map bound).sum := by
  refine total_le (run_moments hk (todo_handles ha.handles) ?_ (fun _ _ => rfl) ?_ hx)
  · exact fun _ r hr he => he ▸ h0 r hr
  · intro b hb'
    obtain ⟨r, hr⟩ := due_of_mem_todo hb'
    exact call_fits ha hr (h0 r hr.mem) (hb r hr.mem hr.due)

theorem not_raised (h : Due e a r c)
    (hdown : a.target e r ≤ (quota r.handle).held) :
    (x c.handle).held ≤ ((a.passAt e quota k).quota c.handle).held := by
  rw [passAt_untouched ha hk]
  refine moments_within (P := fun handle q => handle = c.handle → q.held ≤ (quota c.handle).held)
    ?_ (passAt_untouched ha hk) ?_ hx c.handle rfl
  · rintro _ rfl
    rw [passAt_untouched ha hk]
  · intro y hy _
    rw [h.handle]
    exact ((h.settles ha).within y hy).trans (max_le le_rfl hdown)

end

/-- With nothing to take back the containers grow into the plan. -/
theorem reclaimsFirst_of_below (ha : Idle e a quota)
    (h : ∀ r ∈ a.runners, a.due e r = true → (quota r.handle).held ≤ a.target e r) :
    ReclaimsFirst e a quota where
  bounded k c hk x hx := by
    refine le_max_of_le_right (total_within ha hk hx ?_ ?_)
    · intro r hr
      rw [AgentCPU.planned]
      split
      · exact h r hr ‹_›
      · exact le_rfl
    · intro r hr hdue
      rw [AgentCPU.planned, if_pos hdue]
  raised k c _ x _ _ b hb habove := by
    obtain ⟨r, hr⟩ := due_of_mem_todo hb
    rw [hr.target, hr.handle] at habove
    exact absurd (h r hr.mem hr.due) (not_le.mpr habove)

/-- With nothing to lend no runner is raised. -/
theorem reclaimsFirst_of_above (ha : Idle e a quota)
    (h : ∀ r ∈ a.runners, a.due e r = true → a.target e r ≤ (quota r.handle).held) :
    ReclaimsFirst e a quota where
  bounded k c hk x hx := le_max_of_le_left (total_within ha hk hx (fun _ _ => le_rfl) h)
  raised k c hk x hx hup := by
    obtain ⟨r, hr⟩ := due_of_mem_todo (mem_of_getElem? hk)
    exact absurd (not_raised ha hk hx hr (h r hr.mem hr.due)) (not_le.mpr hup)

section
variable (e) (a : AgentCPU)

def AgentCPU.reclaims : List Candidate :=
  (a.runners.filterMap (a.consider e)).filter Candidate.reduction

def AgentCPU.raises : List Candidate :=
  (a.runners.filterMap (a.consider e)).filter fun c => !c.reduction

variable {e a}

theorem todo_eq : a.todo e = a.reclaims e ++ a.raises e :=
  sortStableFunc_compareFirst

theorem reclaims_reduction (c : Candidate) (hc : c ∈ a.reclaims e) : c.reduction = true :=
  (mem_filter.mp hc).2

theorem raises_not_reduction (c : Candidate) (hc : c ∈ a.raises e) : c.reduction = false := by
  simpa using (mem_filter.mp hc).2

theorem mem_reclaims (hc : c ∈ a.todo e) (hred : c.reduction = true) : c ∈ a.reclaims e := by
  rw [todo_eq, mem_append] at hc
  rcases hc with hc | hc
  · exact hc
  · rw [raises_not_reduction c hc] at hred
    exact absurd hred Bool.false_ne_true

theorem reclaims_due (hc : c ∈ a.reclaims e) : ∃ r, Due e a r c :=
  due_of_mem_todo (todo_eq ▸ mem_append_left _ hc)

theorem raises_due (hc : c ∈ a.raises e) : ∃ r, Due e a r c :=
  due_of_mem_todo (todo_eq ▸ mem_append_right _ hc)

variable (e a quota) in
def AgentCPU.reclaimed : ThrottlePass :=
  (a.reclaims e).foldl (ThrottlePass.update e)
    (a.pass e quota)

theorem passAt_reclaiming {k : Nat} (hk : k ≤ (a.reclaims e).length) : a.passAt e quota k =
      ((a.reclaims e).take k).foldl (ThrottlePass.update e)
        (a.pass e quota) := by
  rw [AgentCPU.passAt, todo_eq, take_append_of_le_length hk]

theorem passAt_raising {k : Nat} (hk : (a.reclaims e).length ≤ k) : a.passAt e quota k =
      ((a.raises e).take (k - (a.reclaims e).length)).foldl
        (ThrottlePass.update e) (a.reclaimed e quota) := by
  rw [AgentCPU.passAt, todo_eq, take_append, take_of_length_le hk, foldl_append, AgentCPU.reclaimed]

variable (ha : Idle e a quota)
include ha

theorem handles_split : ((a.reclaims e).map Candidate.handle).Nodup ∧
    ((a.raises e).map Candidate.handle).Nodup ∧
    ∀ b ∈ a.raises e, b.handle ∉ (a.reclaims e).map Candidate.handle := by
  have hn := @todo_handles a _ e ha.handles
  rw [todo_eq, map_append] at hn
  obtain ⟨hl, hr, hd⟩ := nodup_append.mp hn
  exact ⟨hl, hr, fun b hb hm => hd _ hm _ (mem_map_of_mem hb) rfl⟩

theorem reclaimed_calls {b : Candidate} (hb : b ∈ a.reclaims e) : (b.handle, (e.call quota b).2) ∈
        (a.reclaimed e quota).calls ∧
      ((a.reclaimed e quota).reclaimFailed = false → (e.call quota b).2 ≠ .refused) := by
  obtain ⟨hcalls, hfailed⟩ := @reductions_sent _ e (a.pass e quota)
    quota _ (handles_split ha).1 (fun _ _ => rfl) reclaims_reduction
  rw [AgentCPU.reclaimed, hcalls, hfailed, pass_start ha, Bool.false_or]
  constructor
  · exact mem_append_right _ (mem_map_of_mem hb)
  intro hnone hrefused
  rw [any_eq_false] at hnone
  exact hnone b hb (by rw [hrefused]; rfl)

theorem reclaims_fit
    (hreductions : ∀ r ∈ a.runners, a.due e r = true → a.reduces e r = true →
      a.target e r ≤ (quota r.handle).held)
    {b : Candidate} (hb : b ∈ a.reclaims e) :
    ∀ x ∈ (e.call quota b).1, a.fits (fun r => (quota r.handle).held) b.handle x := by
  obtain ⟨r, hr⟩ := reclaims_due hb
  exact call_fits ha hr le_rfl
    (hreductions r hr.mem hr.due (hr.reduction.symm.trans (reclaims_reduction b hb)))

variable (hraises : ∀ r ∈ a.runners, a.due e r = true → a.reduces e r = false →
    (quota r.handle).held ≤ a.target e r)
include hraises

/-- Once every reduction was made or found its runner gone, each runner is within the plan. -/
theorem reclaimed_within
    (hfailed : (a.reclaimed e quota).reclaimFailed = false)
    (handle : String) : a.fits (a.planned e quota) handle
      ((a.reclaimed e quota).quota handle) := by
  rintro r hr rfl
  by_cases hmem : r.handle ∈ (a.reclaims e).map Candidate.handle
  · obtain ⟨c, hc, hch⟩ := mem_map.mp hmem
    obtain ⟨s, hs⟩ := reclaims_due hc
    obtain ⟨before, after, hsplit⟩ := append_of_mem hc
    have hn := (@handles_split e quota a ha).1
    rw [hs.of_handle ha hr hch.symm, planned_of_due hs, ← hs.handle, AgentCPU.reclaimed]
    rw [hsplit] at hn ⊢
    rw [turns_at hn (reduction_free (reclaims_reduction c hc))]
    have hset := (hs.settles ha).settled ((reclaimed_calls ha hc).2 hfailed)
    rwa [← hs.handle] at hset
  · rw [AgentCPU.reclaimed, turns_other hmem, AgentCPU.planned]
    split
    · rename_i hdue
      refine hraises r hr hdue ?_
      rw [← Bool.not_eq_true]
      intro hred
      have hd := candidate_due hr hdue
      exact hmem (mem_map_of_mem (mem_reclaims (mem_todo ha hr hdue) (hd.reduction.trans hred)))
    · exact le_rfl

variable (hreductions : ∀ r ∈ a.runners, a.due e r = true → a.reduces e r = true →
    a.target e r ≤ (quota r.handle).held)
include hreductions

/-- At no moment do the containers hold more than before or than is planned. -/
theorem bounded_of_genuine {k : Nat} (hk : (a.todo e)[k]? = some c)
    {x : String → Halves}
    (hx : x ∈ (a.passAt e quota k).moments e c) :
    a.total x ≤ max (a.total quota) (a.plannedTotal e quota) := by
  obtain ⟨hnl, hnr, hfresh⟩ := @handles_split e quota a ha
  rcases lt_or_ge k (a.reclaims e).length with hlt | hge
  · rw [todo_eq, getElem?_append_left hlt] at hk
    rw [passAt_reclaiming hlt.le] at hx
    refine le_max_of_le_left (total_le (run_moments hk hnl ?_ (fun _ _ => rfl) ?_ hx))
    · exact fun _ r _ he => he ▸ le_rfl
    · exact fun b hb => reclaims_fit ha hreductions hb
  rw [todo_eq, getElem?_append_right hge] at hk
  rw [passAt_raising hge] at hx
  have hc := raises_not_reduction c (mem_of_getElem? hk)
  cases hf : (a.reclaimed e quota).reclaimFailed with
  | true =>
    -- the raises are held back, so the containers have what the reductions left
    obtain ⟨-, hsame, hquota⟩ := @raises_sent _ e (a.reclaimed e quota)
      _ fun b hb => raises_not_reduction b (mem_of_mem_take hb)
    rw [ThrottlePass.moments, ThrottlePass.holdsBack, hsame, hf, hc] at hx
    rw [mem_singleton.mp hx, hquota hf]
    refine le_max_of_le_left (total_le (turns_within hnl ?_ (fun _ _ => rfl) ?_))
    · exact fun _ r _ he => he ▸ le_rfl
    · exact fun b hb => reclaims_fit ha hreductions hb
  | false =>
    refine le_max_of_le_right (total_le (run_moments hk hnr (reclaimed_within ha hraises hf)
      (fun b hb => turns_other (hfresh b hb)) ?_ hx))
    intro b hb
    obtain ⟨r, hr⟩ := raises_due hb
    have hup := hraises r hr.mem hr.due (hr.reduction.symm.trans (raises_not_reduction b hb))
    exact call_fits ha hr (hup.trans_eq (planned_of_due hr).symm) (planned_of_due hr).ge

/-- A raise comes after every reduction that takes CPU back. -/
theorem raised_of_genuine {k : Nat} (hk : (a.todo e)[k]? = some c)
    {x : String → Halves}
    (hx : x ∈ (a.passAt e quota k).moments e c)
    (hup : ((a.passAt e quota k).quota c.handle).held <
      (x c.handle).held) {b : Candidate} (hb : b ∈ a.todo e)
    (habove : (e.labels b.handle).asks b.cpus < (quota b.handle).held) :
    ∃ answer, (b.handle, answer) ∈ (a.passAt e quota k).calls ∧ answer ≠ .refused := by
  have hctodo := mem_of_getElem? hk
  cases hred : c.reduction with
  | true =>
    -- a reduction does not raise what it finds
    obtain ⟨r, hr⟩ := due_of_mem_todo hctodo
    have hdown := hreductions r hr.mem hr.due (hr.reduction.symm.trans hred)
    exact absurd (not_raised ha hk hx hr hdown) (not_le.mpr hup)
  | false =>
    have hlen : (a.reclaims e).length ≤ k := by
      by_contra hlt
      rw [todo_eq, getElem?_append_left (not_le.mp hlt)] at hk
      rw [reclaims_reduction c (mem_of_getElem? hk)] at hred
      exact Bool.noConfusion hred
    rw [passAt_raising hlen] at hx hup ⊢
    obtain ⟨hsub, hsame, -⟩ := @raises_sent _ e (a.reclaimed e quota)
      _ fun b hb => raises_not_reduction b (mem_of_mem_take hb)
    cases hf : (a.reclaimed e quota).reclaimFailed with
    | true =>
      rw [ThrottlePass.moments, ThrottlePass.holdsBack, hsame, hf, hred] at hx
      rw [mem_singleton.mp hx] at hup
      exact absurd hup (lt_irrefl _)
    | false =>
      obtain ⟨r, hr⟩ := due_of_mem_todo hb
      have hbred : b.reduction = true := by
        rw [hr.target, hr.handle] at habove
        rw [← Bool.not_eq_false, hr.reduction]
        exact fun hno => absurd (hraises r hr.mem hr.due hno) (not_le.mpr habove)
      obtain ⟨hcall, hans⟩ := reclaimed_calls ha (mem_reclaims hb hbred)
      exact ⟨_, hsub hcall, hans hf⟩

end

section
variable {p : ThrottlePass} {l : List Candidate}

theorem turns_calls {call : String × Answer}
    (h : call ∈ (l.foldl (ThrottlePass.update e) p).calls) :
    call ∈ p.calls ∨ call.1 ∈ l.map Candidate.handle := by
  induction l generalizing p with
  | nil => exact .inl h
  | cons c rest ih =>
    rcases ih h with hc | hc
    · cases hb : p.holdsBack c with
      | true => exact .inl ((update_held (e := e) hb).2.1 ▸ hc)
      | false =>
        rw [(update_free hb).2.1, mem_append, mem_singleton] at hc
        rcases hc with hc | rfl
        · exact .inl hc
        · exact .inr mem_cons_self
    · exact .inr (mem_cons_of_mem _ hc)

/-- Calls that are not refused hold no later turn back. -/
theorem turns_open (quota : String → Halves) (hp : p.reclaimFailed = false)
    (hn : (l.map Candidate.handle).Nodup)
    (hagree : ∀ c ∈ l, p.quota c.handle = quota c.handle)
    (h : ∀ c ∈ l, c.reduction = true → (e.call quota c).2 ≠ .refused) :
    (l.foldl (ThrottlePass.update e) p).reclaimFailed = false := by
  induction l generalizing p with
  | nil => exact hp
  | cons c rest ih =>
    obtain ⟨hc, hrest⟩ := nodup_cons.mp hn
    refine ih ?_ hrest ?_ fun b hb => h b (mem_cons_of_mem _ hb)
    · rw [(update_free (open_free hp)).2.2, hp, call_congr (hagree c mem_cons_self)]
      simpa using h c mem_cons_self
    · intro b hb
      rw [update_other fun he => hc (he ▸ mem_map_of_mem hb)]
      exact hagree b (mem_cons_of_mem _ hb)

variable (ha : Idle e a quota)
include ha

theorem Due.made (h : Due e a r c) (hdone : (e.answers c.handle).allDone) :
    ∃ first, e.call quota c =
      ([first, (e.labels c.handle).wants unrounded c.cpus (e.answers c.handle).busier], .done) := by
  have hpaired := ha.paired r h.mem
  rw [← h.handle] at hpaired
  exact updateResources_done h.pos hpaired hdone

/-- A raise whose turn comes before a reduction's is made while that runner still holds its loan. -/
theorem not_reclaimsFirst {before after : List Candidate}
    (hall : ∀ handle, (e.answers handle).allDone)
    (hsplit : a.todo e = before ++ c :: after) (h : Due e a r c)
    (hraise : (quota r.handle).held < a.target e r) {b : Candidate} (hb : b ∈ after)
    (habove : (e.labels b.handle).asks b.cpus < (quota b.handle).held) :
    ¬ ReclaimsFirst e a quota := by
  intro hfirst
  have hk : (a.todo e)[before.length]? = some c := by
    rw [hsplit, getElem?_append_right le_rfl, Nat.sub_self]
    rfl
  have hn := @todo_handles a _ e ha.handles
  rw [hsplit, map_append, map_cons] at hn
  obtain ⟨hnb, -, hdisj⟩ := nodup_append.mp hn
  have hpass : a.passAt e quota before.length =
      before.foldl (ThrottlePass.update e) (a.pass e quota) := by
    rw [AgentCPU.passAt, hsplit, take_left]
  have hopen : (a.passAt e quota before.length).reclaimFailed = false := by
    rw [hpass]
    refine turns_open quota (pass_start ha) hnb (fun _ _ => rfl) ?_
    intro e he _
    obtain ⟨s, hs⟩ := due_of_mem_todo (hsplit ▸ mem_append_left _ he)
    obtain ⟨first, hcall⟩ := hs.made ha (hall _)
    rw [hcall]
    nofun
  obtain ⟨first, hcall⟩ := h.made ha (hall _)
  have hsame := passAt_untouched ha hk
  have hmoment : Function.update (a.passAt e quota before.length).quota
      c.handle ((e.labels c.handle).wants unrounded c.cpus (e.answers c.handle).busier) ∈
      (a.passAt e quota before.length).moments e c := by
    rw [ThrottlePass.moments, open_free hopen, call_congr hsame, hcall]
    exact mem_cons_of_mem _ (mem_cons_of_mem _ mem_cons_self)
  obtain ⟨answer, hans, -⟩ := hfirst.raised _ c hk _ hmoment (by
    rw [Function.update_self, wants_held, h.target, hsame, h.handle]
    exact hraise) b (hsplit ▸ mem_append_right _ (mem_cons_of_mem _ hb)) habove
  -- the other runner has not been called yet
  rw [hpass] at hans
  rcases turns_calls hans with hnone | hmem
  · exact absurd hnone not_mem_nil
  · exact hdisj _ hmem _ (mem_cons_of_mem _ (mem_map_of_mem hb)) rfl

omit ha in
/-- The runner walked first has the first turn among the reductions or among the raises. -/
theorem walked_first {rest : List TrackedCPU} (hrest : a.runners = r :: rest)
    (hfree : r.pendingCPUFactor = none) (hdue : a.due e r = true) : ∃ before after, a.todo e =
        before ++ a.candidate e r :: after ∧
      ∀ b ∈ before, b.reduction = true ∧ a.reduces e r = false := by
  rw [todo_eq, AgentCPU.reclaims, AgentCPU.raises, hrest,
    filterMap_cons_some (consider_of_due hfree hdue)]
  have hclass : (a.candidate e r).reduction = a.reduces e r := rfl
  cases hr : a.reduces e r with
  | true =>
    rw [filter_cons_of_pos (hclass.trans hr)]
    exact ⟨[], _, rfl, fun b hb => absurd hb not_mem_nil⟩
  | false =>
    rw [filter_cons_of_pos (p := fun c : Candidate => !c.reduction) (by rw [hclass, hr]; rfl)]
    refine ⟨_, _, rfl, fun b hb => ⟨(mem_filter.mp hb).2, rfl⟩⟩

theorem first_raised {rest : List TrackedCPU} (hall : ∀ handle, (e.answers handle).allDone)
    (hrest : a.runners = r :: rest) {s : TrackedCPU} (hs : s ∈ a.runners)
    (hdr : a.due e r = true) (hds : a.due e s = true)
    (hclass : a.reduces e r = true ∨ a.reduces e s = false)
    (hraise : (quota r.handle).held < a.target e r)
    (habove : a.target e s < (quota s.handle).held) : ¬ ReclaimsFirst e a quota := by
  have hr : r ∈ a.runners := hrest ▸ mem_cons_self
  obtain ⟨before, after, hsplit, hbefore⟩ := walked_first hrest (ha.free r hr) hdr
  have hdue := candidate_due hs hds
  have hmem := mem_todo ha hs hds
  rw [hsplit, mem_append, mem_cons] at hmem
  rcases hmem with hmem | heq | hmem
  · obtain ⟨hred, hnot⟩ := hbefore _ hmem
    rw [hdue.reduction] at hred
    rcases hclass with hclass | hclass
    · exact absurd (hclass.symm.trans hnot) (by decide)
    · exact absurd (hred.symm.trans hclass) (by decide)
  · have hsame := inj_on_of_nodup_map ha.handles hs hr (congrArg Candidate.handle heq)
    rw [hsame] at habove
    exact absurd habove hraise.not_gt
  · refine not_reclaimsFirst ha hall hsplit (candidate_due hr hdr) hraise hmem ?_
    rw [hdue.target, hdue.handle]
    exact habove

end

def AgentCPU.walked (a : AgentCPU) (order : List TrackedCPU) : AgentCPU :=
  { a with runners := order }

theorem Idle.walked (ha : Idle e a quota) {order : List TrackedCPU} (hp : order.Perm a.runners) :
    Idle e (a.walked order) quota where
  handles := (hp.map _).nodup_iff.mpr ha.handles
  free r hr := ha.free r (hp.mem_iff.mp hr)
  paired r hr := ha.paired r (hp.mem_iff.mp hr)

def Surroundings.answering (e : Surroundings unrounded) (answers : String → UpdateAnswers) :
    Surroundings unrounded :=
  { e with answers := answers }

theorem Idle.answering (ha : Idle e a quota) {answers : String → UpdateAnswers} :
    Idle (e.answering answers) a quota where
  handles := ha.handles
  free := ha.free
  paired := ha.paired

end

def lendingAgent (applied : ℚ → Option ℚ) : AgentCPU where
  runners :=
    [{ runnerID := "a", handle := "ca", cpus := 1, appliedCPUFactor := applied 1 },
      { runnerID := "b", handle := "cb", cpus := 1, appliedCPUFactor := applied 2 }]
  elasticCPU := [("a", 2)]
  factorPos := zero_lt_one

def lentQuota (handle : String) : Halves := if handle = "cb" then ⟨2, 0⟩ else ⟨1, 0⟩

def willing (labels : String → PairLabels) : Surroundings unrounded where
  now := 0
  updatable _ := true
  labels := labels
  answers _ := {}

theorem lending_idle {applied : ℚ → Option ℚ} :
    Idle (willing fun _ => ⟨1, none⟩) (lendingAgent applied) lentQuota where
  handles := by
    change ["ca", "cb"].Nodup
    decide
  free r hr := by
    simp only [lendingAgent, mem_cons, not_mem_nil, or_false] at hr
    rcases hr with rfl | rfl <;> rfl
  paired r _ := by
    rw [lentQuota]
    split <;> exact ⟨le_rfl, fun _ => rfl⟩

def unevenAgent : AgentCPU where
  runners :=
    [{ runnerID := "a", handle := "ca", cpus := 4 / 5, appliedCPUFactor := some 1 },
      { runnerID := "b", handle := "cb", cpus := 1, appliedCPUFactor := some 1 }]
  cpuFactor := 9 / 10
  factorPos := by norm_num

def unevenLabels (handle : String) : PairLabels :=
  if handle = "ca" then ⟨4 / 5, some (1 / 5)⟩ else ⟨1, none⟩

def unevenQuota (handle : String) : Halves := if handle = "ca" then ⟨4 / 5, 1 / 5⟩ else ⟨1, 0⟩

/-- Unless a reduction is refused, the directives of a heartbeat leave the containers of every runner
that takes its update at the figures of the plan: both at the scaled quota, or, for a boost of a pair,
one at its own and the busier at the rest. -/
theorem directives_reach_plan (e : Surroundings unrounded) (a : AgentCPU) (quota : String → Halves)
    (ha : Idle e a quota) (directive : Option ThrottleDirective)
    (elastic : List ElasticCPUDirective)
    (hasked : directive.isSome = true ∨ a.cpuFactor ≠ directedFactor directive ∨
      sameMap a.elasticCPU (elasticPlan elastic) = false)
    (hans : ∀ c ∈ (a.directed directive elastic e.now).todo e,
      c.reduction = true → (e.call quota c).2 ≠ .refused)
    (r : TrackedCPU) (hr : r ∈ a.runners) (hdone : (e.answers r.handle).allDone) :
    (a.applyResourceDirectives e quota directive elastic).2 r.handle =
      let next := a.directed directive elastic e.now
      if next.due e r then
        (e.labels r.handle).wants unrounded (r.cpus * next.factorFor e r)
          (e.answers r.handle).busier
      else quota r.handle := by
  have hw : Idle e (a.directed directive elastic e.now) quota := ⟨ha.handles, ha.free, ha.paired⟩
  have hr' : r ∈ (a.directed directive elastic e.now).runners := hr
  rw [AgentCPU.applyResourceDirectives, if_neg (by
    rcases hasked with h | h | h
    · cases directive <;> simp_all
    · simp [AgentCPU.directed, h]
    · simp [AgentCPU.directed, h])]
  dsimp only [AgentCPU.applyThrottle]
  generalize a.directed directive elastic e.now = next at hw hans hr' ⊢
  have hn := @todo_handles next _ e hw.handles
  split
  · rename_i hdue
    have hd := candidate_due hr' hdue
    obtain ⟨before, after, hsplit⟩ := append_of_mem (mem_todo hw hr' hdue)
    rw [hsplit] at hn hans ⊢
    -- no turn before this one has stopped the raises
    have hopen : (before.foldl (ThrottlePass.update e) (next.pass e quota)).reclaimFailed =
        false := by
      rw [map_append] at hn
      exact turns_open quota (pass_start hw) (nodup_append.mp hn).1 (fun _ _ => rfl)
        fun c hc => hans c (mem_append_left _ hc)
    obtain ⟨first, hcall⟩ := hd.made hw hdone
    have hat := turns_at (p := next.pass e quota) hn (open_free hopen)
    rw [show (next.pass e quota).quota = quota from rfl, hcall, hd.handle, hd.cpus] at hat
    exact hat
  · rename_i hdue
    refine turns_other fun hmem => hdue ?_
    obtain ⟨c, hc, hcr⟩ := mem_map.mp hmem
    obtain ⟨s, hs⟩ := due_of_mem_todo hc
    rw [hs.of_handle hw hr' hcr.symm]
    exact hs.due

def pairedAgent : AgentCPU where
  runners := [{ runnerID := "a", handle := "ca", cpus := 1, appliedCPUFactor := some 1 }]
  factorPos := zero_lt_one

/-- A pair of one CPU each that is lent twice its allocation: the sidecar has the whole loan. -/
theorem directives_reach_plan_pair : (pairedAgent.applyResourceDirectives
    (willing fun _ => ⟨1, some 1⟩) (fun _ => ⟨1, 1⟩) none [⟨"a", 2⟩]).2 "ca" = ⟨1, 3⟩ :=
  (directives_reach_plan (willing fun _ => ⟨1, some 1⟩) pairedAgent (fun _ => ⟨1, 1⟩)
    { handles := by
        change ["ca"].Nodup
        decide
      free := by decide
      paired := fun _ _ => ⟨zero_le_one, nofun⟩ }
    none [⟨"a", 2⟩] (.inr (.inr (by decide +kernel))) (by decide +kernel) _ mem_cons_self
    ⟨rfl, rfl, rfl, rfl, rfl⟩).trans (by decide +kernel)

end Zoomies.Agent
