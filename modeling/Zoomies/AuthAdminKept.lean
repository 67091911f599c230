import Zoomies.AuthAccounts
import Mathlib.Data.List.Nodup

/-! The last administrator stays and a change of authority sticks, as long as no request writes an
account back over one. -/
namespace Zoomies.Auth
open Zoomies.Store Zoomies.Prog List

abbrev Seat := String × Role × Bool

def User.seat (u : User) : Seat := (u.id, u.role, u.disabled)

def Accounts.seats (s : Accounts) : List Seat := s.users.map User.seat

def Seat.holds (held : Role → Bool) (a : Seat) : Bool := held a.2.1 && !a.2.2

def AccountRequest.changesRole (id : String) : AccountRequest → Bool
  | edit _ id' e => id' == id && e.role.isSome
  | _ => false

def AccountRequest.enables (id : String) : AccountRequest → Bool
  | edit _ id' e => id' == id && e.disabled == some false
  | setDisabled id' disabled => id' == id && !disabled
  | _ => false

def Asked (q : AccountRequest) (s s' : Accounts) : Prop :=
  ∀ u ∈ s.users, ∀ u' ∈ s'.users, u'.id = u.id → (u'.role ≠ u.role → q.changesRole u.id = true) ∧
    (u.disabled = true → u'.disabled = false → q.enables u.id = true)

def AsRead (s : Accounts) : AccountCall → Prop
  | .updateUser u before =>
    ∀ r ∈ s.users, r.id = u.id → r.role = before.role ∧ r.disabled = before.disabled
  | _ => True

instance (s : Accounts) (o : AccountCall) : Decidable (AsRead s o) :=
  match o with
  | .updateUser u _ => inferInstanceAs (Decidable (∀ r ∈ s.users, r.id = u.id → _ ∧ _))
  | .lock | .unlock | .getUser _ | .getUserByOIDCSubject _ | .getUserByUsername _ | .countAdmins
  | .countPlatform | .setPassword _ _ | .deleteUser _ | .deleteUserSessions _
  | .revokeAPITokensForUser _ => isTrue trivial

structure Administered (held : Role → Bool) (s : Accounts) : Prop where
  ids : (s.seats.map Prod.fst).Nodup
  held : s.seats.any (Seat.holds held) = true

def AuthorityKept (i : Nat) (s s' : Accounts) : Prop :=
  (s.adminMu = some i → s'.adminMu = some i ∧ s'.seats = s.seats) ∧
    (s.adminMu ≠ some i → s'.adminMu ≠ some i)

def accountRules (held : Role → Bool) :
    Rules Accounts (Option String) AccountCall AccountCall.Answer where
  exec := Accounts.call
  guard s _ o := AsRead s o
  inv := Administered held
  rely := AuthorityKept
  fresh i s := s.adminMu ≠ some i
  rely_refl _ _ := ⟨fun h => ⟨h, rfl⟩, id⟩
  rely_trans _ _ _ _ h h' :=
    ⟨fun hs => ⟨(h'.1 (h.1 hs).1).1, (h'.1 (h.1 hs).1).2.trans (h.1 hs).2⟩, fun hs => h'.2 (h.2 hs)⟩
  rely_fresh _ _ _ h hs := h.2 hs

section
variable {s s' : Accounts} {err : Option String} (i : Nat)

def AccountCall.quiet : AccountCall → Bool
  | lock | unlock | updateUser _ _ | deleteUser _ => false
  | _ => true

theorem seats_setPassword {userID hash : String} : (s.setPassword userID hash).1.seats = s.seats ∧
      (s.setPassword userID hash).1.adminMu = s.adminMu := by
  unfold Accounts.setPassword Accounts.affecting
  cases rowAt User.id userID s.users with
  | none => exact ⟨rfl, rfl⟩
  | some r =>
    refine ⟨?_, rfl⟩
    rw [Accounts.seats, Accounts.seats, setAt, map_map]
    refine map_congr_left fun u _ => ?_
    rw [Function.comp_apply]
    split <;> rfl

theorem call_quiet {o : AccountCall} (hq : o.quiet = true) {a : o.Answer}
    (h : s.call err i o = some (s', a)) : s'.seats = s.seats ∧ s'.adminMu = s.adminMu := by
  cases o with
  | setPassword userID hash =>
    obtain rfl := congrArg Prod.fst (Option.some.inj h)
    cases err with
    | some text => exact ⟨rfl, rfl⟩
    | none => exact seats_setPassword
  | lock | unlock | updateUser u before | deleteUser id => cases hq
  | _ =>
    obtain rfl := congrArg Prod.fst (Option.some.inj h)
    exact ⟨rfl, rfl⟩

def reseated (id : String) (role : Role) (disabled : Bool) (seats : List Seat) : List Seat :=
  seats.map fun a => if a.1 = id then (id, role, disabled) else a

theorem seats_updateUser {u : User} : (s.updateUser u).1.adminMu = s.adminMu ∧
    ((s.updateUser u).1.seats = s.seats ∨ u.id ∈ s.seats.map Prod.fst ∧
      (s.updateUser u).1.seats = reseated u.id u.role u.disabled s.seats) := by
  unfold Accounts.updateUser Accounts.affecting
  dsimp only
  split
  · exact ⟨rfl, .inl rfl⟩
  cases hrow : rowAt User.id u.id s.users with
  | none => exact ⟨rfl, .inl rfl⟩
  | some r =>
    refine ⟨rfl, .inr ⟨?_, ?_⟩⟩
    · rw [Accounts.seats, map_map]
      exact mem_map.mpr ⟨r, mem_of_rowAt hrow, key_of_rowAt _ hrow⟩
    rw [Accounts.seats, Accounts.seats, setAt, reseated, map_map, map_map]
    refine map_congr_left fun v _ => ?_
    change User.seat (if v.id = u.id then _ else v) = if v.id = u.id then _ else v.seat
    split <;> rfl

theorem call_updateUser {u before : User} {a : Except StoreError Unit}
    (h : s.call err i (.updateUser u before) = some (s', a)) : s'.adminMu = s.adminMu ∧
      (s'.seats = s.seats ∨ u.id ∈ s.seats.map Prod.fst ∧
        s'.seats = reseated u.id u.role u.disabled s.seats) := by
  obtain rfl := congrArg Prod.fst (Option.some.inj h)
  cases err with
  | some text => exact ⟨rfl, .inl rfl⟩
  | none => exact seats_updateUser

theorem call_deleteUser {id : String} {a : Except StoreError Unit}
    (h : s.call err i (.deleteUser id) = some (s', a)) : s'.adminMu = s.adminMu ∧
      (s'.users = s.users ∨ s'.users = s.users.filter fun r => r.id != id) := by
  obtain rfl := congrArg Prod.fst (Option.some.inj h)
  cases err with
  | some text => exact ⟨rfl, .inl rfl⟩
  | none =>
    unfold Accounts.deleteUser Accounts.affecting
    cases rowAt User.id id s.users with
    | none => exact ⟨rfl, .inl rfl⟩
    | some r => exact ⟨rfl, .inr rfl⟩

end

section
variable {held : Role → Bool} {s s' : Accounts}

theorem Administered.of_seats (h : Administered held s) (he : s'.seats = s.seats) :
    Administered held s' :=
  ⟨he ▸ h.ids, he ▸ h.held⟩

theorem seat_unique (h : Administered held s) {a b : Seat} (ha : a ∈ s.seats) (hb : b ∈ s.seats)
    (hid : a.1 = b.1) : a = b :=
  inj_on_of_nodup_map h.ids ha hb hid

theorem asked_of_seats (q : AccountRequest) (h : Administered held s) (he : s'.seats = s.seats) :
    Asked q s s' := by
  intro u hu u' hu' hid
  have hmem : u'.seat ∈ s.seats := he ▸ mem_map_of_mem hu'
  have hsame := seat_unique h hmem (mem_map_of_mem hu) hid
  obtain ⟨hrole, hdis⟩ := Prod.mk.inj (Prod.mk.inj hsame).2
  refine ⟨fun hne => absurd hrole hne, fun h1 h2 => ?_⟩
  rw [hdis, h1] at h2
  cases h2

def Spare (held : Role → Bool) (id : String) (role : Role) (disabled : Bool) (seats : List Seat) :
    Prop :=
  (held role && !disabled) = true ∨ ∃ a ∈ seats, a.1 ≠ id ∧ a.holds held = true

variable {id : String} {role : Role} {disabled : Bool}

theorem spare_of_count (h : Administered held s)
    (hcount : 1 < s.seats.countP (Seat.holds held)) : Spare held id role disabled s.seats := by
  right
  by_contra hnone
  have hle : s.seats.countP (Seat.holds held) ≤ (s.seats.map Prod.fst).count id := by
    rw [count_eq_countP, countP_map]
    refine countP_mono_left fun a ha hholds => ?_
    rw [Function.comp_apply, beq_iff_eq]
    by_contra hne
    exact hnone ⟨a, ha, hne, hholds⟩
  have hone := nodup_iff_count_le_one.mp h.ids id
  omega

theorem spare_of_not_holds (h : Administered held s) (a : Seat) (ha : a ∈ s.seats)
    (hnot : a.holds held = false) : Spare held a.1 role disabled s.seats := by
  obtain ⟨b, hb, hholds⟩ := any_eq_true.mp h.held
  refine .inr ⟨b, hb, fun hid => ?_, hholds⟩
  rw [seat_unique h hb ha hid, hnot] at hholds
  cases hholds

theorem administered_reseated (h : Administered held s) (hid : id ∈ s.seats.map Prod.fst)
    (hspare : Spare held id role disabled s.seats)
    (he : s'.seats = reseated id role disabled s.seats) : Administered held s' := by
  have hfst : (reseated id role disabled s.seats).map Prod.fst = s.seats.map Prod.fst := by
    rw [reseated, map_map]
    refine map_congr_left fun a _ => ?_
    rw [Function.comp_apply]
    split <;> rename_i hcase
    · exact hcase.symm
    · rfl
  refine ⟨by rw [he, hfst]; exact h.ids, ?_⟩
  rw [he, any_eq_true]
  rcases hspare with hnew | ⟨a, ha, hne, hholds⟩
  · obtain ⟨a, ha, hfst⟩ := mem_map.mp hid
    exact ⟨(id, role, disabled), mem_map.mpr ⟨a, ha, if_pos hfst⟩, hnew⟩
  · exact ⟨a, mem_map.mpr ⟨a, ha, if_neg hne⟩, hholds⟩

theorem asked_reseated {q : AccountRequest} (h : Administered held s) {u before : User}
    (hread : AsRead s (.updateUser u before))
    (hrole : u.role ≠ before.role → q.changesRole u.id = true)
    (henable : before.disabled = true → u.disabled = false → q.enables u.id = true)
    (he : s'.seats = reseated u.id u.role u.disabled s.seats) : Asked q s s' := by
  intro v hv v' hv' hid
  have hmem : v'.seat ∈ reseated u.id u.role u.disabled s.seats := he ▸ mem_map_of_mem hv'
  obtain ⟨a, ha, hseat⟩ := mem_map.mp hmem
  by_cases hau : a.1 = u.id
  · rw [if_pos hau] at hseat
    obtain ⟨hvid, hrest⟩ := Prod.mk.inj hseat
    obtain ⟨hvrole, hvdis⟩ := Prod.mk.inj hrest
    have hvu : v.id = u.id := hid.symm.trans hvid.symm
    obtain ⟨hr, hd⟩ := hread v hv hvu
    rw [hvu, ← hvrole, hr, ← hvdis, hd]
    exact ⟨hrole, henable⟩
  · rw [if_neg hau] at hseat
    subst hseat
    have hsame := seat_unique h ha (mem_map_of_mem hv) hid
    obtain ⟨hr, hd⟩ := Prod.mk.inj (Prod.mk.inj hsame).2
    refine ⟨fun hne => absurd hr hne, fun h1 h2 => ?_⟩
    rw [hd, h1] at h2
    cases h2

theorem reseated_same {u before : User}
    (hread : AsRead s (.updateUser u before)) (hrole : u.role = before.role)
    (hdis : u.disabled = before.disabled) : reseated u.id u.role u.disabled s.seats = s.seats := by
  refine map_congr_left (fun a ha => ?_) |>.trans (map_id _)
  obtain ⟨r, hr, rfl⟩ := mem_map.mp ha
  split <;> rename_i hcase
  · obtain ⟨h1, h2⟩ := hread r hr hcase
    rw [hrole, hdis, ← h1, ← h2, ← hcase]
    rfl
  · rfl

theorem removed_kept {q : AccountRequest} (h : Administered held s)
    (hspare : Spare held id .viewer true s.seats)
    (hcase : s'.users = s.users ∨ s'.users = s.users.filter fun r => r.id != id) :
    Administered held s' ∧ Asked q s s' := by
  rcases hcase with hs | hs
  · have hseats : s'.seats = s.seats := congrArg (List.map User.seat) hs
    exact ⟨h.of_seats hseats, asked_of_seats q h hseats⟩
  have hsub : s'.seats.Sublist s.seats := by
    rw [Accounts.seats, hs]
    exact filter_sublist.map _
  refine ⟨⟨(hsub.map _).nodup h.ids, ?_⟩, fun u hu u' hu' hid => ?_⟩
  · rcases hspare with hnone | ⟨a, ha, hne, hholds⟩
    · rw [Bool.not_true, Bool.and_false] at hnone
      cases hnone
    obtain ⟨r, hr, rfl⟩ := mem_map.mp ha
    refine any_eq_true.mpr ⟨r.seat, mem_map_of_mem ?_, hholds⟩
    rw [hs]
    exact mem_filter.mpr ⟨hr, bne_iff_ne.mpr hne⟩
  · rw [hs] at hu'
    have hsame := seat_unique h (mem_map_of_mem (mem_of_mem_filter hu')) (mem_map_of_mem hu) hid
    obtain ⟨hrole, hdis⟩ := Prod.mk.inj (Prod.mk.inj hsame).2
    refine ⟨fun hne => absurd hrole hne, fun h1 h2 => ?_⟩
    rw [hdis, h1] at h2
    cases h2

end

section
variable (held : Role → Bool) (q : AccountRequest) (i : Nat) {ρ : Type}

abbrev Follows (post : ρ → Accounts → Prop) (p : AccountProg ρ) (s : Accounts) : Prop :=
  (accountRules held).Along (Asked q) i post p s

def Stage (seats : Option (List Seat)) (s : Accounts) : Prop :=
  match seats with
  | none => s.adminMu ≠ some i
  | some seats => s.adminMu = some i ∧ s.seats = seats

variable {held q i} {post : ρ → Accounts → Prop} {s t t' : Accounts} {seats : Option (List Seat)}

theorem Stage.kept (h : Stage i seats s) (hr : AuthorityKept i s t) : Stage i seats t := by
  cases seats with
  | none => exact hr.2 h
  | some seats => exact ⟨(hr.1 h.1).1, (hr.1 h.1).2.trans h.2⟩

theorem Stage.same (h : Stage i seats s) (hmu : t.adminMu = s.adminMu) (hs : t.seats = s.seats) :
    Stage i seats t := by
  cases seats with
  | none => exact fun ht => h (hmu.symm.trans ht)
  | some seats => exact ⟨hmu.trans h.1, hs.trans h.2⟩

theorem Follows.pure (x : ρ) (h : Stage i seats s) (hpost : ∀ t, Stage i seats t → post x t) :
    Follows held q i post (pure x) s :=
  fun _ hr _ => hpost _ (h.kept hr)

theorem Follows.done {x : ρ} (h : Stage i seats s) :
    Follows held q i (fun _ _ => True) (Pure.pure x) s :=
  .pure x h fun _ _ => trivial

theorem Follows.holding {x : ρ} {A : List Seat} (h : Stage i (some A) s) :
    Follows held q i (fun _ t => t.adminMu = some i) (Pure.pure x) s :=
  .pure x h fun _ ht => ht.1

theorem still_call (h : Administered held t) (hmu : t'.adminMu = t.adminMu)
    (hs : t'.seats = t.seats) :
    Administered held t' ∧ Asked q t t' ∧ ∀ j, j ≠ i → AuthorityKept j t t' :=
  ⟨h.of_seats hs, asked_of_seats q h hs,
    fun _ _ => ⟨fun hj => ⟨hmu.trans hj, hs⟩, fun hj ht => hj (hmu.symm.trans ht)⟩⟩

theorem Follows.quiet {o : AccountCall} {f : o.Answer → AccountProg ρ} (hq : o.quiet = true)
    (h : Stage i seats s)
    (hf : ∀ t err a t', Administered held t → Stage i seats t → t.call err i o = some (t', a) →
      Stage i seats t' → Follows held q i post (f a) t') :
    Follows held q i post (ask o >>= f) s := by
  intro t err t' a hr ht _ he
  obtain ⟨hs, hmu⟩ := call_quiet i hq he
  obtain ⟨h1, h2, h3⟩ := still_call (q := q) (i := i) ht hmu hs
  exact ⟨h1, h2, h3, hf t err a t' ht (h.kept hr) he ((h.kept hr).same hmu hs)⟩

theorem Follows.rewrite {u before : User} {f : Except StoreError Unit → AccountProg ρ}
    (hrole : u.role = before.role) (hdis : u.disabled = before.disabled) (h : Stage i seats s)
    (hf : ∀ a t, Stage i seats t → Follows held q i post (f a) t) :
    Follows held q i post (AccountCalls.updateUser u before >>= f) s := by
  intro t err t' a hr ht hread he
  obtain ⟨hmu, hcase⟩ := call_updateUser i he
  have hs : t'.seats = t.seats := by
    rcases hcase with hs | ⟨_, hs⟩
    · exact hs
    · exact hs.trans (reseated_same hread hrole hdis)
  obtain ⟨h1, h2, h3⟩ := still_call (q := q) (i := i) ht hmu hs
  exact ⟨h1, h2, h3, hf a t' ((h.kept hr).same hmu hs)⟩

theorem kept_of_holding (hmu : t.adminMu = some i) (hmu' : t'.adminMu = some i ∨ t'.adminMu = none)
    (j : Nat) (hj : j ≠ i) : AuthorityKept j t t' := by
  refine ⟨fun h => absurd (Option.some.inj (h.symm.trans hmu)) hj, fun _ h => ?_⟩
  rcases hmu' with hsome | hnone
  · exact hj (Option.some.inj (h.symm.trans hsome))
  · rw [hnone] at h
    cases h

/-- A row is written under the mutex, and someone still holds the role afterwards. -/
theorem Follows.write (A : List Seat) (u before : User) (f : Except StoreError Unit → AccountProg ρ)
    (hspare : Spare held u.id u.role u.disabled A)
    (hrole : u.role ≠ before.role → q.changesRole u.id = true)
    (henable : before.disabled = true → u.disabled = false → q.enables u.id = true)
    (h : Stage i (some A) s)
    (hf : ∀ a t, Stage i (some t.seats) t → Follows held q i post (f a) t) :
    Follows held q i post (AccountCalls.updateUser u before >>= f) s := by
  intro t err t' a hr ht hread he
  obtain ⟨hmu, hA⟩ := h.kept hr
  obtain ⟨hmu', hcase⟩ := call_updateUser i he
  have hnow : t'.adminMu = some i := hmu'.trans hmu
  have hrest := hf a t' ⟨hnow, rfl⟩
  rcases hcase with hs | ⟨hid, hs⟩
  · obtain ⟨h1, h2, h3⟩ := still_call (q := q) (i := i) ht hmu' hs
    exact ⟨h1, h2, h3, hrest⟩
  exact ⟨administered_reseated ht hid (hA.symm ▸ hspare) hs,
    asked_reseated ht hread hrole henable hs, kept_of_holding hmu (.inl hnow), hrest⟩

theorem Follows.remove {A : List Seat} {id : String} (f : Except StoreError Unit → AccountProg ρ)
    (hspare : Spare held id .viewer true A) (h : Stage i (some A) s)
    (hf : ∀ a t, Stage i (some t.seats) t → Follows held q i post (f a) t) :
    Follows held q i post (AccountCalls.deleteUser id >>= f) s := by
  intro t err t' a hr ht _ he
  obtain ⟨hmu, hA⟩ := h.kept hr
  obtain ⟨hmu', hcase⟩ := call_deleteUser i he
  have hnow : t'.adminMu = some i := hmu'.trans hmu
  obtain ⟨hadm, hasked⟩ := removed_kept ht (hA.symm ▸ hspare) hcase
  exact ⟨hadm, hasked, kept_of_holding hmu (.inl hnow), hf a t' ⟨hnow, rfl⟩⟩

end

end Zoomies.Auth
