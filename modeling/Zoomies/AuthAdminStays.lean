import Zoomies.AuthAdminKept

/-! Every request that changes accounts keeps to the rules. -/
namespace Zoomies.Auth
open Zoomies.Go Zoomies.Store List

def isPlatform (r : Role) : Bool := r == .platform

def isAdmin (r : Role) : Bool := r.atLeast .admin

section
variable {held : Role → Bool} {q : AccountRequest} {i : Nat} {s : Accounts}

variable {t : Accounts} {A : List Seat} {id : String} {u : User} {cfg : OIDCConfig}

theorem countP_seats (held : Role → Bool) :
    t.seats.countP (Seat.holds held) = t.users.countP (User.holds held) := by
  rw [Accounts.seats, countP_map]
  rfl

theorem ensureRemains_follows {checked : Role → Bool}
    {count : AccountProg (Except StoreError Nat)} {last : AccountError} {existing : User}
    {newRole : Role} {newDisabled : Bool} (hmem : existing.seat ∈ A)
    (hcount : ∀ s, Administered held s → Stage i (some A) s → Follows held q i (fun r t =>
      Stage i (some A) t ∧ ∀ n, r = .ok n → n = A.countP (Seat.holds checked)) count s)
    (hs : Stage i (some A) s) (hadm : Administered held s) :
    Follows held q i (fun r t => Stage i (some A) t ∧ (r = .ok () → checked = held →
      Spare held existing.id newRole newDisabled A))
      (ensureRemains checked count last existing newRole newDisabled) s := by
  unfold ensureRemains
  dsimp only
  have hA := hs.2
  split
  · refine Follows.pure _ hs fun t ht => ⟨ht, ?_⟩
    rintro - rfl
    rename_i hcase
    rw [Bool.or_eq_true, Bool.not_eq_true'] at hcase
    rcases hcase with hwas | hstill
    · exact hA ▸ spare_of_not_holds hadm existing.seat (hA ▸ hmem) hwas
    · exact .inl hstill
  · refine Rules.Along.bind _ _ _ _ _ _ _ s hadm (hcount s hadm hs) ?_
    rintro (err | n) t ht ⟨hst, hn⟩
    · exact Follows.pure _ hst fun t ht => ⟨ht, fun h => by cases h⟩
    refine Follows.pure _ hst fun t' ht' => ⟨ht', ?_⟩
    rintro hok rfl
    have hlt : ¬ n ≤ 1 := by
      intro hle
      rw [if_pos hle] at hok
      cases hok
    rw [hn n rfl, ← hst.2] at hlt
    exact hst.2 ▸ spare_of_count ht (Nat.lt_of_not_le hlt)

theorem countPlatform_follows (hs : Stage i (some A) s) :
    Follows held q i (fun r t => Stage i (some A) t ∧
      ∀ n, r = .ok n → n = A.countP (Seat.holds isPlatform)) AccountCalls.countPlatform s := by
  refine Follows.quiet (o := .countPlatform) rfl hs fun t err a t' _ ht he ht' => ?_
  refine Follows.pure a ht' fun u hu => ⟨hu, fun n hn => ?_⟩
  subst hn
  cases err with
  | some text => cases (Prod.mk.inj (Option.some.inj he)).2
  | none =>
    obtain rfl := Except.ok.inj (Prod.mk.inj (Option.some.inj he)).2
    exact (countP_seats isPlatform).symm.trans (by rw [ht.2])

theorem countAdmins_follows (hs : Stage i (some A) s) :
    Follows held q i (fun r t => Stage i (some A) t ∧
      ∀ n, r = .ok n → n = A.countP (Seat.holds isAdmin)) AccountCalls.countAdmins s := by
  refine Follows.quiet (o := .countAdmins) rfl hs fun t err a t' _ ht he ht' => ?_
  refine Follows.pure a ht' fun u hu => ⟨hu, fun n hn => ?_⟩
  subst hn
  cases err with
  | some text => cases (Prod.mk.inj (Option.some.inj he)).2
  | none =>
    obtain rfl := Except.ok.inj (Prod.mk.inj (Option.some.inj he)).2
    exact (countP_seats isAdmin).symm.trans (by rw [ht.2])

variable (hheld : held = isPlatform ∨ held = isAdmin)
include hheld

theorem ensureAdminRemains_follows {existing : User}
    {newRole : Role} {newDisabled : Bool} {post : AccountResult → Accounts → Prop}
    {f : AccountResult → AccountProg AccountResult} (hadm : Administered held t)
    (ht : Stage i (some A) t) (hmem : existing.seat ∈ t.seats) (hs : Stage i (some A) s)
    (hf : ∀ r v, Stage i (some A) v →
      (r = .ok () → Spare held existing.id newRole newDisabled A) → Follows held q i post (f r) v) :
    Follows held q i post (ensureAdminRemains existing newRole newDisabled >>= f) s := by
  have hadm : Administered held s := hadm.of_seats (hs.2.trans ht.2.symm)
  have hmem : existing.seat ∈ A := ht.2 ▸ hmem
  refine Rules.Along.bind _ _ _ (fun r t => Stage i (some A) t ∧
    (r = .ok () → Spare held existing.id newRole newDisabled A)) _ _ _ s hadm ?_
    fun r v _ hv => hf r v hv.1 hv.2
  refine Rules.Along.bind _ _ _ _ _ _ _ s hadm (ensureRemains_follows hmem (fun s _ => countPlatform_follows) hs hadm) ?_
  rintro (err | _) t ht ⟨hst, hplatform⟩
  · exact Follows.pure _ hst fun t ht => ⟨ht, fun h => by cases h⟩
  refine Rules.Along.weaken _ _ _ _ ?_ t (ensureRemains_follows hmem (fun s _ => countAdmins_follows) hst ht)
  rintro r t' ⟨hst', hadmin⟩
  refine ⟨hst', fun hok => ?_⟩
  rcases hheld with rfl | rfl
  · exact hplatform rfl rfl
  · exact hadmin hok rfl

omit hheld in
theorem call_getUser {t' : Accounts} {err : Option String}
    (h : t.call err i (.getUser id) = some (t', .ok u)) : u.seat ∈ t.seats ∧ u.id = id := by
  cases err with
  | some text => cases (Prod.mk.inj (Option.some.inj h)).2
  | none =>
    have hr : t.find (·.id == id) (Accounts.missing id) = .ok u := (Prod.mk.inj (Option.some.inj h)).2
    unfold Accounts.find at hr
    cases hfind : t.users.find? (·.id == id) with
    | none =>
      rw [hfind] at hr
      cases hr
    | some v =>
      rw [hfind] at hr
      obtain rfl := Except.ok.inj hr
      have hid := find?_some hfind
      exact ⟨mem_map_of_mem (mem_of_find?_eq_some hfind), beq_iff_eq.mp hid⟩

omit hheld in
theorem call_lock {t' : Accounts} (err : Option String) {a : Unit}
    (h : t.call err i .lock = some (t', a)) :
    t.adminMu = none ∧ t' = { t with adminMu := some i } := by
  change (if t.adminMu = none then some _ else none) = _ at h
  split at h <;> rename_i hfree
  · exact ⟨hfree, ((Prod.mk.inj (Option.some.inj h)).1).symm⟩
  · cases h

omit hheld in
theorem endAccess_follows {ρ : Type} {post : ρ → Accounts → Prop}
    {f : Unit → AccountProg ρ} {seats : Option (List Seat)} (hs : Stage i seats s)
    (hf : ∀ t, Stage i seats t → Follows held q i post (f ()) t) :
    Follows held q i post (endAccess id >>= f) s := by
  refine Follows.quiet (o := .deleteUserSessions id) rfl hs fun _ _ _ _ _ _ _ h1 => ?_
  exact Follows.quiet (o := .revokeAPITokensForUser id) rfl h1 fun _ _ _ t _ _ _ h2 => hf t h2

omit hheld in
theorem withAdminMu_follows {body : AccountProg AccountResult}
    (hbody : ∀ A s, Administered held s → Stage i (some A) s →
      Follows held q i (fun _ t => t.adminMu = some i) body s) :
    Follows held q i (fun _ _ => True) (withAdminMu body) s := by
  intro t err t' a hr ht _ he
  obtain ⟨hfree, rfl⟩ := call_lock err he
  have hadm : Administered held { t with adminMu := some i } := ht.of_seats rfl
  refine ⟨hadm, asked_of_seats q ht rfl, fun j hj => ⟨fun h => ?_, fun _ h => ?_⟩, ?_⟩
  · rw [hfree] at h
    cases h
  · exact hj (Option.some.inj h).symm
  change Follows held q i _ (body >>= fun r => AccountCalls.unlock >>= fun _ => pure r) _
  refine Rules.Along.bind _ _ _ _ _ _ _ _ hadm (hbody _ _ hadm ⟨rfl, rfl⟩) ?_
  intro r v hv hmu u err u' a hr hu _ he
  cases he
  have hmu' : u.adminMu = some i := (hr.1 hmu).1
  exact ⟨hu.of_seats rfl, asked_of_seats q hu rfl, kept_of_holding hmu' (.inr rfl),
    fun _ _ _ => trivial⟩

theorem updateUser_follows {before : User}
    (hrole : u.role ≠ before.role → q.changesRole u.id = true)
    (henable : before.disabled = true → u.disabled = false → q.enables u.id = true) :
    Follows held q i (fun _ _ => True) (updateUser u before) s := by
  refine withAdminMu_follows fun A s hadm hs => ?_
  refine Follows.quiet (o := .getUser u.id) rfl hs fun t err a t' hadm ht he ht' => ?_
  rcases a with err | existing
  · exact .holding ht'
  obtain ⟨hmem, hid⟩ := call_getUser he
  dsimp only
  split
  · exact .holding ht'
  refine ensureAdminRemains_follows hheld hadm ht hmem ht' ?_
  rintro (err | _) v hv hspare
  · exact .holding hv
  refine Follows.write A _ before _ (hid ▸ hspare rfl) hrole henable hv fun a w hw => ?_
  rcases a with err | _
  · cases err <;> exact .holding hw
  dsimp only
  split
  · exact endAccess_follows hw fun _ h => .holding h
  · exact .holding hw

theorem setUserDisabled_follows {disabled : Bool}
    (henable : disabled = false → q.enables id = true) :
    Follows held q i (fun _ _ => True) (setUserDisabled id disabled) s := by
  refine withAdminMu_follows fun A s hadm hs => ?_
  refine Follows.quiet (o := .getUser id) rfl hs fun t err a t' hadm ht he ht' => ?_
  rcases a with err | u
  · exact .holding ht'
  obtain ⟨hmem, rfl⟩ := call_getUser he
  dsimp only
  split
  · exact .holding ht'
  refine ensureAdminRemains_follows hheld hadm ht hmem ht' ?_
  rintro (err | _) v hv hspare
  · exact .holding hv
  refine Follows.write A _ u _ (hspare rfl) (fun h => absurd rfl h) (fun _ h => henable h) hv
    fun a w hw => ?_
  rcases a with err | _
  · exact .holding hw
  dsimp only
  split
  · exact endAccess_follows hw fun _ h => .holding h
  · exact .holding hw

theorem deleteUser_follows : Follows held q i (fun _ _ => True) (deleteUser id) s := by
  refine withAdminMu_follows fun A s hadm hs => ?_
  refine Follows.quiet (o := .getUser id) rfl hs fun t err a t' hadm ht he ht' => ?_
  rcases a with err | u
  · exact .holding ht'
  obtain ⟨hmem, rfl⟩ := call_getUser he
  refine ensureAdminRemains_follows hheld hadm ht hmem ht' ?_
  rintro (err | _) v hv hspare
  · exact .holding hv
  refine Follows.quiet (o := .revokeAPITokensForUser u.id) rfl hv fun _ _ a w _ _ _ hw => ?_
  rcases a with err | _
  · exact .holding hw
  · refine Follows.remove _ (hspare rfl) hw fun a x hx => ?_
    rcases a with err | _ <;> exact .holding hx

omit hheld in
theorem resetPassword_follows {userID newPassword : String} {hashed : Except String String}
    (hs : Stage i none s) :
    Follows held q i (fun _ _ => True) (resetPassword userID newPassword hashed) s := by
  refine Follows.quiet (o := .getUser userID) rfl hs fun _ _ a t _ _ _ ht => ?_
  rcases a with err | u
  · exact .done ht
  dsimp only
  split
  · exact .done ht
  rcases hashed with text | hash
  · exact .done ht
  refine Follows.quiet (o := .setPassword u.id hash) rfl ht fun _ _ a t _ _ _ ht => ?_
  rcases a with err | _
  · exact .done ht
  refine Follows.rewrite rfl rfl ht fun a t ht => ?_
  rcases a with err | _
  · exact .done ht
  · exact Follows.quiet (o := .deleteUserSessions u.id) rfl ht fun _ _ _ _ _ _ _ ht =>
      .done ht

theorem handleUpdateUser_follows {caller : Option Identity} {edit : AccountEdit}
    (hs : Stage i none s) : Follows held (.edit caller id edit) i (fun _ _ => True)
      (handleUpdateUser caller id edit) s := by
  refine Follows.quiet (o := .getUser id) rfl hs fun t err a t' _ _ he ht => ?_
  rcases a with err | u
  · exact .done ht
  obtain ⟨_, rfl⟩ := call_getUser he
  have hsave : Follows held (.edit caller u.id edit) i (fun _ _ => True)
      (updateUser (edit.apply u) u) t' := by
    refine updateUser_follows hheld (fun hne => ?_) fun hoff hon => ?_
    · cases hrole : edit.role with
      | none => exact absurd (by rw [AccountEdit.apply, hrole]; rfl) hne
      | some text => simp [AccountRequest.changesRole, AccountEdit.apply, hrole]
    cases hdis : edit.disabled with
    | none =>
      rw [AccountEdit.apply, hdis] at hon
      cases hoff.symm.trans hon
    | some d =>
      rw [AccountEdit.apply, hdis] at hon
      obtain rfl : d = false := hon
      simp [AccountRequest.enables, AccountEdit.apply, hdis]
  dsimp only
  cases manageWithin caller u.role with
  | error err => exact .done ht
  | ok _ =>
    cases hrole : edit.role with
    | none => exact hsave
    | some text =>
      dsimp only
      generalize roleNamed (toLower (trimSpace text)) = role
      by_cases hvalid : role.valid = false
      · rw [if_pos hvalid]
        exact .done ht
      rw [if_neg hvalid]
      cases manageWithin caller role with
      | error err => exact .done ht
      | ok _ => exact hsave

omit hheld in
theorem sync_follows (hcfg : cfg.mapsRoles = false) {claims : Claims}
    {username : String} (hs : Stage i none s) :
    Follows held q i (fun _ _ => True) (sync cfg claims username u) s := by
  unfold sync
  cases u.disabled with
  | true => exact .done hs
  | false =>
    rw [if_neg Bool.false_ne_true]
    split
    · exact .done hs
    · refine Follows.rewrite (by rw [Claims.apply, hcfg]; rfl) rfl hs fun a t ht => ?_
      rcases a with err | _ <;> exact .done ht

omit hheld in
theorem ensureUser_follows (hcfg : cfg.mapsRoles = false) {claims : Claims}
    (hs : Stage i none s) : Follows held q i (fun _ _ => True) (ensureUser cfg claims) s := by
  unfold ensureUser
  split
  · exact .done hs
  rcases claims.username with text | username
  · exact .done hs
  refine Follows.quiet (o := .getUserByOIDCSubject claims.subject) rfl hs fun _ _ a t _ _ _ ht => ?_
  rcases a with err | u
  · cases err with
    | noRows =>
      refine Follows.quiet (o := .getUserByUsername username) rfl ht fun _ _ a t _ _ _ ht => ?_
      rcases a with err | u
      · cases err <;> exact .done ht
      dsimp only
      split
      · exact .done ht
      split
      · exact .done ht
      · exact sync_follows hcfg ht
    | _ => exact .done ht
  · exact sync_follows hcfg ht

theorem prog_follows (hcfg : cfg.mapsRoles = false)
    (hs : Stage i none s) : Follows held q i (fun _ _ => True) (q.prog cfg) s := by
  cases q with
  | edit caller id e => exact handleUpdateUser_follows hheld hs
  | setDisabled id disabled =>
    refine setUserDisabled_follows hheld ?_
    rintro rfl
    exact Bool.and_eq_true_iff.mpr ⟨beq_self_eq_true id, rfl⟩
  | delete id => exact deleteUser_follows hheld
  | resetPassword userID newPassword hashed =>
    exact resetPassword_follows hs
  | login claims => exact ensureUser_follows hcfg hs

end

abbrev AccountWorld :=
  World Accounts AccountRequest AccountCall AccountCall.Answer AccountResult

abbrev AccountMove := Move AccountRequest (Option String)

def RowsAsRead (cfg : OIDCConfig) (w : AccountWorld) (moves : List AccountMove) : Prop :=
  w.Guarded Accounts.call (AccountRequest.prog cfg) (fun w _ _ => AsRead w.shared) moves

def AccountWorld.run (cfg : OIDCConfig) (w : AccountWorld) (moves : List AccountMove) :
    AccountWorld :=
  World.run Accounts.call (AccountRequest.prog cfg) w moves

theorem keeping_run {held : Role → Bool} (hheld : held = isPlatform ∨ held = isAdmin)
    {cfg : OIDCConfig} (hcfg : cfg.mapsRoles = false) {users : List User}
    (hids : (users.map User.id).Nodup) (hstart : users.any (User.holds held) = true)
    {moves : List AccountMove} (hread : RowsAsRead cfg ⟨⟨users, none⟩, []⟩ moves) :
    (accountRules held).Keeping Asked (AccountWorld.run cfg ⟨⟨users, none⟩, []⟩ moves) := by
  refine Rules.Keeping.run (accountRules held) Asked _
    (fun i s q _ hs => prog_follows hheld hcfg hs) _ ?_ moves hread
  refine ⟨⟨?_, ?_⟩, fun i r hr => ?_, fun i _ => Option.some_ne_none i |>.symm⟩
  · rw [Accounts.seats, map_map]
    exact hids
  · rw [Accounts.seats, any_map]
    exact hstart
  · cases hr

/-- From accounts with an enabled administrator, as long as no whole row is written over a change
its request has not read: one exists at every moment, and an account changes its role, or is enabled
again, only by a request that asks for it. -/
theorem authority_sticks (cfg : OIDCConfig) (hcfg : cfg.mapsRoles = false) (users : List User)
    (hids : (users.map User.id).Nodup) (hadmin : users.any (User.holds isAdmin) = true)
    (moves : List AccountMove) (hread : RowsAsRead cfg ⟨⟨users, none⟩, []⟩ moves)
    (before after : List AccountMove) (hmoves : moves = before ++ after) :
    let w := AccountWorld.run cfg ⟨⟨users, none⟩, []⟩ before
    w.shared.users.any (User.holds isAdmin) = true ∧ (users.any (User.holds isPlatform) = true →
      w.shared.users.any (User.holds isPlatform) = true) ∧
    ∀ i err rest, after = .step i err :: rest →
      let w' := AccountWorld.run cfg ⟨⟨users, none⟩, []⟩ (before ++ [.step i err])
      ∀ u ∈ w.shared.users, ∀ u' ∈ w'.shared.users, u'.id = u.id →
        (u'.role ≠ u.role → ∃ r, w.procs[i]? = some r ∧ r.request.changesRole u.id = true) ∧
        (u.disabled = true → u'.disabled = false →
          ∃ r, w.procs[i]? = some r ∧ r.request.enables u.id = true) := by
  subst hmoves
  obtain ⟨hbefore, hafter⟩ := (World.guarded_append _).mp hread
  have hkeep (held : Role → Bool) (hheld : held = isPlatform ∨ held = isAdmin)
      (hstart : users.any (User.holds held) = true) :=
    keeping_run hheld hcfg hids hstart hbefore
  have hholds (held : Role → Bool) (s : Accounts) (h : Administered held s) :
      s.users.any (User.holds held) = true := by
    have hany := h.held
    rw [Accounts.seats, any_map] at hany
    exact hany
  have hw := hkeep isAdmin (.inr rfl) hadmin
  refine ⟨hholds _ _ hw.holds, fun h => hholds _ _ (hkeep isPlatform (.inl rfl) h).holds, ?_⟩
  rintro i err rest rfl w' u hu u' hu' hid
  have hrun : AccountWorld.run cfg ⟨⟨users, none⟩, []⟩ (before ++ [.step i err]) =
      World.step Accounts.call (AccountWorld.run cfg ⟨⟨users, none⟩, []⟩ before) i err :=
    foldl_append
  have hmem : u' ∈ (World.step Accounts.call
      (AccountWorld.run cfg ⟨⟨users, none⟩, []⟩ before) i err).shared.users := hrun ▸ hu'
  rcases (Rules.Keeping.step (accountRules isAdmin) Asked _ hw i err hafter.1).2 with
    hsame | ⟨r, hr, hasked⟩
  · have hask := asked_of_seats (.delete "") hw.holds (congrArg Accounts.seats hsame) u hu u' hmem
      hid
    exact ⟨fun hne => absurd (hask.1 hne) Bool.false_ne_true,
      fun h1 h2 => absurd (hask.2 h1 h2) Bool.false_ne_true⟩
  · obtain ⟨hrole, henable⟩ := hasked u hu u' hmem hid
    exact ⟨fun hne => ⟨r, hr, hrole hne⟩, fun h1 h2 => ⟨r, hr, henable h1 h2⟩⟩

def twoAccounts (role : Role) : List User :=
  [{ id := "usr_a", username := "ann", role := .platform },
    { id := "usr_b", username := "bo", role := role }]

def ann : Option Identity := some { id := "usr_a", role := .platform }

def calls (i n : Nat) : List AccountMove := List.replicate n (.step i none)

def disabledThenEdited : List AccountMove :=
  [.spawn (.setDisabled "usr_b" true)] ++ calls 0 8 ++
    [.spawn (.edit ann "usr_b" { email := some "bo@example.com" })] ++ calls 1 5

def twoRun (role : Role) (moves : List AccountMove) : Accounts :=
  (AccountWorld.run ⟨false, false⟩ ⟨⟨twoAccounts role, none⟩, []⟩ moves).shared

theorem authority_sticks_edited :
    RowsAsRead ⟨false, false⟩ ⟨⟨twoAccounts .admin, none⟩, []⟩ disabledThenEdited ∧
      (twoRun .admin disabledThenEdited).users.any (User.holds isAdmin) = true ∧
      (twoRun .admin disabledThenEdited).users.map User.disabled = [false, true] := by
  have hread : RowsAsRead ⟨false, false⟩ ⟨⟨twoAccounts .admin, none⟩, []⟩ disabledThenEdited := by
    unfold RowsAsRead
    decide +kernel
  exact ⟨hread, (authority_sticks ⟨false, false⟩ rfl (twoAccounts .admin) (by decide +kernel)
    (by decide +kernel) _ hread disabledThenEdited [] (append_nil _).symm).1,
    by decide +kernel⟩

def editedMeanwhile : List AccountMove :=
  [.spawn (.edit ann "usr_b" { email := some "bo@example.com" })] ++ calls 0 1 ++
    [.spawn (.setDisabled "usr_b" true)] ++ calls 1 8 ++ calls 0 4

def resetMeanwhile : List AccountMove :=
  [.spawn (.resetPassword "usr_b" "correct horse" (.ok "hash"))] ++ calls 0 1 ++
    [.spawn (.edit ann "usr_b" { role := some "platform" })] ++ calls 1 5 ++
    [.spawn (.edit ann "usr_a" { role := some "viewer" })] ++ calls 2 7 ++ calls 0 3

/-- The edit enables the account again, and the reset leaves nobody to administer. -/
theorem authority_written_back :
    (twoRun .viewer (editedMeanwhile.take 11)).users.map User.disabled = [false, true] ∧
    (twoRun .viewer editedMeanwhile).users.map User.disabled = [false, false] ∧
    (twoRun .viewer resetMeanwhile).users.any (User.holds isAdmin) = false := by
  decide +kernel

end Zoomies.Auth
