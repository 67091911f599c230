import Zoomies.AuthRbac
import Zoomies.StoreRows
import Mathlib.Data.List.DropRight

/-! API tokens: minted within the caller's authority, stored, and turned back into an identity. -/
namespace Zoomies.Auth
open Zoomies.Go Zoomies.Store List

structure APIToken where
  id : String := ""
  name : String := ""
  role : Role
  ownerRole : Role := .unknown ""
  userID : String := ""
  scopes : List String := []
  tokenHash : String := ""
  stem : String := ""
  revoked : Bool := false
  expiresAt : Option Time := none
  deriving DecidableEq

def APIToken.expired (t : APIToken) (now : Time) : Bool :=
  match t.expiresAt with
  | none => false
  | some at_ => decide (at_ < now)

structure NewToken where
  name : String
  role : Role
  userID : String := ""
  scopes : List String := []
  expiresAt : Option Time := none
  ownerRole : Role := .unknown ""

def idFragment (id : String) : String :=
  let rest := ((cut '_' id).getD ("", id)).2
  String.ofList (rest.toList.take 8)

structure TokenDraw where
  id : String
  secret : String

def createAPIToken (lower : LowerCase) (hashToken : String → String) (now : Time)
    (draw : TokenDraw) (token : NewToken) : Except String (APIToken × String) :=
  let name := trimSpace token.name
  let role := if token.role = .unknown "" then .viewer else token.role
  if name = "" then .error "a token needs a name; it is how you will recognise it later"
  else if role.valid = false then
    .error (quoted role.text ++ " is not a role; use " ++ roleList)
  else
    match validateScopes lower token.scopes with
    | .error e => .error e
    | .ok () =>
      if token.expiresAt.any fun at_ => at_ ≤ now then
        .error "the expiry date is in the past; leave it empty for a token that never expires"
      else
        let stem := "zoo_" ++ idFragment draw.id
        let plaintext := stem ++ "_" ++ draw.secret
        .ok ({ id := draw.id, name := name, role := role, ownerRole := token.ownerRole,
               userID := token.userID, scopes := normalizeScopes lower token.scopes,
               tokenHash := hashToken plaintext, stem := stem, expiresAt := token.expiresAt },
          plaintext)

def APIToken.scan (t : APIToken) : APIToken := { t with expiresAt := kept t.expiresAt }

structure Owner where
  role : Role
  disabled : Bool := false
  deriving DecidableEq

inductive TokenError
  | otherCredential (text : String)
  | invalidCredentials
  | revoked
  | expired
  | orphaned
  | ownerDisabled
  | backend (doing : String) (text : String)
  deriving DecidableEq

def otherCredential (token : String) : Option String :=
  let starts := fun p : String => p.toList.isPrefixOf token.toList
  if starts "zooagent_" then
    some "that is an agent token; it is only accepted on /api/v1/agent/*, not on the user API"
  else if starts "zoomcp_" || starts "zoomcpr_" then
    some ("that is an MCP access token; it is accepted on /mcp only, for the connection it was " ++
      "approved for. For the REST API, create an API token")
  else if starts "zoojoin_" then
    some ("that is a join token; it enrols an agent with `zoomies agent join` and cannot be used " ++
      "to call the API")
  else none

structure TokenLookups where
  byHash : String → Except String (Option APIToken)
  user : String → Except String (Option Owner)

def authenticateToken (hashToken : String → String) (look : TokenLookups) (now : Time)
    (token ip : String) : Except TokenError Identity :=
  match otherCredential token with
  | some text => .error (.otherCredential text)
  | none =>
    match look.byHash (hashToken token) with
    | .error e => .error (.backend "looking up API token" e)
    | .ok none => .error .invalidCredentials
    | .ok (some t) =>
      if t.revoked then .error .revoked
      else if t.expired now then .error .expired
      else
        let answer := fun role => { id := t.id, name := t.name, role := role, scopes := t.scopes,
                                    tokenID := t.id, userID := t.userID, ip := ip : Identity }
        if t.userID = "" then .ok (answer t.role)
        else
          match look.user t.userID with
          | .error e => .error (.backend "looking up the owner of an API token" e)
          | .ok none => .error .orphaned
          | .ok (some u) =>
            if u.disabled then .error .ownerDisabled
            else .ok (answer (if u.role.atLeast t.role then t.role else u.role))

section
variable (lower : LowerCase)

def trimmed (l : List Char) : List Char := (l.dropWhile isSpace).rdropWhile isSpace

theorem toList_clean (s : String) :
    (lower.clean s).toList = (trimmed s.toList).map lower.apply := by
  rw [LowerCase.clean, String.toList_ofList, trimSpace, String.toList_ofList]
  rfl

theorem dropWhile_of_isPrefix {p : Char → Bool} {l m : List Char} (h : m <+: l)
    (hl : l.dropWhile p = l) : m.dropWhile p = m := by
  rw [dropWhile_eq_self_iff] at hl ⊢
  intro hm
  obtain ⟨t, rfl⟩ := h
  have hlen : 0 < (m ++ t).length := by
    rw [length_append]
    omega
  have hhead := hl hlen
  rw [getElem_append_left hm] at hhead
  exact hhead

theorem trimmed_trimmed (l : List Char) : trimmed (trimmed l) = trimmed l := by
  have hfront : (trimmed l).dropWhile isSpace = trimmed l :=
    dropWhile_of_isPrefix ( rdropWhile_prefix isSpace _)
      (dropWhile_idempotent isSpace l)
  rw [trimmed, hfront, trimmed, rdropWhile_idempotent]

theorem trimmed_map (l : List Char) :
    trimmed (l.map lower.apply) = (trimmed l).map lower.apply := by
  have hspace : isSpace ∘ lower.apply = isSpace := funext lower.isSpace_apply
  have hdrop (m : List Char) :
      (m.map lower.apply).dropWhile isSpace = (m.dropWhile isSpace).map lower.apply := by
    rw [dropWhile_map, hspace]
  rw [trimmed, trimmed, hdrop, List.rdropWhile, List.rdropWhile, ← map_reverse, hdrop, map_reverse]

theorem clean_clean (s : String) : lower.clean (lower.clean s) = lower.clean s := by
  apply String.toList_inj.mp
  rw [toList_clean, toList_clean, trimmed_map, trimmed_trimmed, map_map]
  congr 1
  funext c
  exact lower.apply_apply c

end

section
variable {lower : LowerCase}

theorem mem_foldl_distinct (l out : List String) (x : String) :
    x ∈ l.foldl (fun out s => if s = "" ∨ s ∈ out then out else out ++ [s]) out ↔
      x ∈ out ∨ x ∈ l ∧ x ≠ "" := by
  induction l generalizing out with
  | nil => simp
  | cons s l ih =>
    by_cases hs : s = "" ∨ s ∈ out
    · grind
    · grind

theorem mem_normalizeScopes {scopes : List String} {x : String} :
    x ∈ normalizeScopes lower scopes ↔ (∃ s ∈ scopes, lower.clean s = x) ∧ x ≠ "" := by
  rw [normalizeScopes, mem_foldl_distinct, mem_map]
  simp

theorem scopesAllow_normalizeScopes (scopes : List String) (a : Action) :
    scopesAllow lower (normalizeScopes lower scopes) a = scopesAllow lower scopes a := by
  rw [scopesAllow, scopesAllow, Bool.eq_iff_iff, any_eq_true, any_eq_true]
  constructor
  · rintro ⟨x, hx, ha⟩
    obtain ⟨⟨s, hs, rfl⟩, _⟩ := mem_normalizeScopes.mp hx
    rw [clean_clean] at ha
    exact ⟨s, hs, ha⟩
  rintro ⟨s, hs, ha⟩
  have hne : lower.clean s ≠ "" := by
    intro he
    rw [he] at ha
    cases ha
  refine ⟨lower.clean s, mem_normalizeScopes.mpr ⟨⟨s, hs, rfl⟩, hne⟩, ?_⟩
  rw [clean_clean]
  exact ha

theorem normalizeScopes_eq_nil {scopes : List String} :
    normalizeScopes lower scopes = [] ↔ ∀ s ∈ scopes, lower.clean s = "" := by
  rw [eq_nil_iff_forall_not_mem]
  constructor
  · intro h s hs
    by_contra hne
    exact h _ (mem_normalizeScopes.mpr ⟨⟨s, hs, rfl⟩, hne⟩)
  intro h x hx
  obtain ⟨⟨s, hs, rfl⟩, hne⟩ := mem_normalizeScopes.mp hx
  exact hne (h s hs)

end

section
variable (lower : LowerCase)

def Covers (scopes : List String) (a : Action) : Prop :=
  ∃ b ∈ a :: impliedBy a, scopesAllow lower scopes b = true

variable {lower}

variable {a : Action} {want : Role}

theorem allowed_iff {id : Identity} :
    allowed lower (some id) a = true ↔ ∃ want, Action.minimum a = some want ∧
      id.role.atLeast want = true ∧ (id.scopes = [] ∨ Covers lower id.scopes a) := by
  unfold allowed
  cases Action.minimum a with
  | none => simp [reduceCtorEq]
  | some want =>
    simp [Covers, or_assoc]

theorem atLeast_iff {r : Role} : r.atLeast want = true ↔ want.rank ≤ r.rank ∧ 0 < r.rank :=
  decide_eq_true_iff

theorem atLeast_of_rank_le {r r' : Role} (h : r.atLeast want = true)
    (hr : r.rank ≤ r'.rank) : r'.atLeast want = true := by
  rw [atLeast_iff] at h ⊢
  omega

theorem mem_allActions_of_minimum (h : Action.minimum a = some want) : a ∈ allActions := by
  obtain ⟨row, hrow, _⟩ := Option.map_eq_some_iff.mp h
  have hfound := find?_some hrow
  have hkey : row.1 = a := beq_iff_eq.mp hfound
  rw [allActions, ← hkey]
  exact mem_map_of_mem (mem_of_find?_eq_some hrow)

theorem mem_allActions_of_impliedBy {b : Action} (h : b ∈ impliedBy a) : b ∈ allActions := by
  have hall : ∀ b ∈ ["tokens.read", "tokens.write", "kennel.waive_error", "kennel.untrack"],
      b ∈ actionRoles.map Prod.fst := by decide +kernel
  apply hall
  unfold impliedBy at h
  split_ifs at h <;> grind

theorem mintWithin_ok {caller : Identity} {role : Role} {scopes : List String}
    (h : mintWithin lower (some caller) role scopes = .ok ()) :
    caller.role.atLeast role = true ∧ (caller.scopes = [] ∨ scopes ≠ [] ∧
      ∀ a ∈ allActions, scopesAllow lower scopes a = true →
        scopesAllow lower caller.scopes a = true) := by
  unfold mintWithin at h
  dsimp only at h
  by_cases hrole : caller.role.atLeast role = false
  · rw [if_pos hrole] at h
    cases h
  rw [if_neg hrole] at h
  refine ⟨Bool.eq_true_of_not_eq_false hrole, ?_⟩
  by_cases hunscoped : caller.scopes = []
  · exact .inl hunscoped
  rw [if_neg hunscoped] at h
  by_cases hempty : scopes = []
  · rw [if_pos hempty] at h
    cases h
  rw [if_neg hempty] at h
  split at h
  · next hbeyond =>
    refine .inr ⟨hempty, fun a ha hs => ?_⟩
    by_contra hno
    have hnot := eq_nil_iff_forall_not_mem.mp hbeyond a
    exact hnot (mem_filter.mpr ⟨ha, by simp [hs, hno]⟩)
  · cases h

theorem createAPIToken_ok {hashToken : String → String} {now : Time} {draw : TokenDraw}
    {token : NewToken} {t : APIToken} {plaintext : String}
    (h : createAPIToken lower hashToken now draw token = .ok (t, plaintext)) :
    t.role = (if token.role = .unknown "" then .viewer else token.role) ∧
      t.scopes = normalizeScopes lower token.scopes ∧ t.userID = token.userID ∧
      validateScopes lower token.scopes = .ok () := by
  unfold createAPIToken at h
  generalize (if token.role = .unknown "" then .viewer else token.role) = role at h ⊢
  by_cases hname : trimSpace token.name = ""
  · rw [if_pos hname] at h
    cases h
  rw [if_neg hname] at h
  by_cases hrole : role.valid = false
  · rw [if_pos hrole] at h
    cases h
  rw [if_neg hrole] at h
  cases hv : validateScopes lower token.scopes with
  | error e =>
    rw [hv] at h
    cases h
  | ok u =>
    rw [hv] at h
    dsimp only at h
    split at h
    · cases h
    · obtain ⟨rfl, _⟩ := Prod.mk.inj (Except.ok.inj h)
      exact ⟨rfl, rfl, rfl, rfl⟩

theorem authenticateToken_ok {hashToken : String → String} {look : TokenLookups} {now : Time}
    {token ip : String} {t : APIToken} (ht : look.byHash (hashToken token) = .ok (some t))
    {id : Identity} (h : authenticateToken hashToken look now token ip = .ok id) :
    id.scopes = t.scopes ∧ id.userID = t.userID ∧ id.role.rank ≤ t.role.rank ∧
      (t.userID ≠ "" → ∃ u, look.user t.userID = .ok (some u) ∧ id.role.rank ≤ u.role.rank) := by
  unfold authenticateToken at h
  cases ho : otherCredential token with
  | some text =>
    rw [ho] at h
    cases h
  | none =>
    rw [ho, ht] at h
    dsimp only at h
    split_ifs at h with hrevoked hexpired howner
    · obtain rfl := Except.ok.inj h
      exact ⟨rfl, rfl, Nat.le_refl _, fun hne => absurd howner hne⟩
    cases hu : look.user t.userID with
    | error e =>
      rw [hu] at h
      cases h
    | ok found =>
      rw [hu] at h
      cases found with
      | none => cases h
      | some u =>
        dsimp only at h
        split at h
        · cases h
        obtain rfl := Except.ok.inj h
        have hcap : (if u.role.atLeast t.role = true then t.role else u.role).rank ≤ t.role.rank ∧
            (if u.role.atLeast t.role = true then t.role else u.role).rank ≤ u.role.rank := by
          by_cases hat : u.role.atLeast t.role = true
          · rw [if_pos hat]
            exact ⟨Nat.le_refl _, (atLeast_iff.mp hat).1⟩
          rw [if_neg hat]
          rw [atLeast_iff] at hat
          exact ⟨by omega, Nat.le_refl _⟩
        exact ⟨rfl, rfl, hcap.1, fun _ => ⟨u, rfl, hcap.2⟩⟩

end

structure Link where
  name : String
  role : Role
  scopes : List String := []
  expiresAt : Option Time := none
  draw : TokenDraw
  mintedAt : Time := 0
  look : TokenLookups
  presentedAt : Time := 0
  ip : String := ""

def Link.newToken (link : Link) (caller : Identity) : NewToken :=
  ⟨link.name, link.role, caller.userID, link.scopes, link.expiresAt, caller.role⟩

structure Handed (lower : LowerCase) (hashToken : String → String) (caller : Identity)
    (link : Link) (id : Identity) : Prop where
  valid : validateScopes lower link.scopes = .ok ()
  within : mintWithin lower (some caller) link.role link.scopes = .ok ()
  minted : ∃ t plaintext,
    createAPIToken lower hashToken link.mintedAt link.draw (link.newToken caller) =
      .ok (t, plaintext) ∧
    link.look.byHash (hashToken plaintext) = .ok (some t.scan) ∧
    authenticateToken hashToken link.look link.presentedAt plaintext link.ip = .ok id

def Link.NamesScope (link : Link) (caller : Identity) : Prop :=
  caller.scopes = [] ∨ link.scopes = [] ∨ ∃ s ∈ link.scopes, trimSpace s ≠ ""

def Chain (lower : LowerCase) (hashToken : String → String) (first : Identity) :
    List Link → Identity → Prop
  | [], id => id = first
  | link :: older, id => ∃ caller, Chain lower hashToken first older caller ∧
      link.NamesScope caller ∧ Handed lower hashToken caller link id

section
variable (lower : LowerCase) (hashToken : String → String)

theorem clean_ne_empty {s : String} (h : trimSpace s ≠ "") : lower.clean s ≠ "" := by
  intro he
  apply h
  have hl : (lower.clean s).toList = [] := congrArg String.toList he
  rw [LowerCase.clean, String.toList_ofList, map_eq_nil_iff] at hl
  exact String.toList_inj.mp hl

theorem covers_of_covers {scopes scopes' : List String} {a : Action} (ha : a ∈ allActions)
    (hwithin : ∀ b ∈ allActions, scopesAllow lower scopes b = true →
      scopesAllow lower scopes' b = true)
    (h : Covers lower (normalizeScopes lower scopes) a) : Covers lower scopes' a := by
  obtain ⟨b, hb, hs⟩ := h
  rw [scopesAllow_normalizeScopes] at hs
  refine ⟨b, hb, hwithin b ?_ hs⟩
  rcases mem_cons.mp hb with rfl | hb
  · exact ha
  · exact mem_allActions_of_impliedBy hb

theorem stored_rank_le {caller : Identity} {role : Role}
    (h : caller.role.atLeast role = true) :
    (if role = .unknown "" then Role.viewer else role).rank ≤ caller.role.rank := by
  rw [atLeast_iff] at h
  split
  · exact h.2
  · exact h.1

theorem Handed.facts {caller id : Identity} {link : Link}
    (h : Handed lower hashToken caller link id) :
    id.scopes = normalizeScopes lower link.scopes ∧ id.userID = caller.userID ∧
      id.role.rank ≤ caller.role.rank ∧ (caller.userID ≠ "" →
        ∃ u, link.look.user caller.userID = .ok (some u) ∧ id.role.rank ≤ u.role.rank) := by
  obtain ⟨t, plaintext, hcreate, hfound, hauth⟩ := h.minted
  obtain ⟨hrole, hscopes, huser, _⟩ := createAPIToken_ok hcreate
  obtain ⟨hs, hu, hrank, hcap⟩ := authenticateToken_ok hfound hauth
  have hmint := (mintWithin_ok h.within).1
  have huser' : t.scan.userID = caller.userID := huser
  refine ⟨hs.trans hscopes, hu.trans huser, ?_, fun hne => ?_⟩
  · calc
      id.role.rank ≤ t.role.rank := hrank
      _ = (if link.role = .unknown "" then Role.viewer else link.role).rank :=
        congrArg Role.rank hrole
      _ ≤ caller.role.rank := stored_rank_le hmint
  · rw [huser'] at hcap
    exact hcap hne

/-- One token stays within its caller exactly when its scopes are named, or nothing its role may do
lies outside the caller's own scopes. -/
theorem Handed.within_iff {caller id : Identity} {link : Link}
    (h : Handed lower hashToken caller link id) :
    (∀ a, allowed lower (some id) a = true → allowed lower (some caller) a = true) ↔
      link.NamesScope caller ∨ ∀ a want, Action.minimum a = some want →
        id.role.atLeast want = true → Covers lower caller.scopes a := by
  obtain ⟨hs, _, hrank, _⟩ := h.facts
  constructor
  · intro hwithin
    refine or_iff_not_imp_left.mpr fun hblank a want hwant hat => ?_
    simp only [Link.NamesScope, not_or, not_exists, not_and, not_not] at hblank
    obtain ⟨hnarrow, -, hblank⟩ := hblank
    -- scopes that are all blank are stored as none, and the token has the whole role
    have hstored : id.scopes = [] := by
      rw [hs]
      refine normalizeScopes_eq_nil.mpr fun s hmem => ?_
      rw [LowerCase.clean, hblank s hmem]
      rfl
    obtain ⟨_, _, _, hcover⟩ := allowed_iff.mp
      (hwithin a (allowed_iff.mpr ⟨want, hwant, hat, .inl hstored⟩))
    exact hcover.resolve_left hnarrow
  rintro (hnames | hall) a ha
  all_goals
    obtain ⟨want, hwant, hat, hcover⟩ := allowed_iff.mp ha
    refine allowed_iff.mpr ⟨want, hwant, atLeast_of_rank_le hat hrank, ?_⟩
  · by_cases hwhole : caller.scopes = []
    · exact .inl hwhole
    obtain ⟨hasked, hwithin⟩ := (mintWithin_ok h.within).2.resolve_left hwhole
    obtain ⟨s, hmem, hne⟩ := (hnames.resolve_left hwhole).resolve_left hasked
    rw [hs] at hcover
    rcases hcover with hempty | hcover
    -- a list that is stored empty was typed empty or all blank, and neither is so here
    · have hblank := normalizeScopes_eq_nil.mp hempty s hmem
      exact absurd hblank (clean_ne_empty lower hne)
    · exact .inr (covers_of_covers lower (mem_allActions_of_minimum hwant) hwithin hcover)
  · exact .inr (hall a want hwant hat)

theorem Chain.allowed (first id : Identity) (links : List Link)
    (h : Chain lower hashToken first links id) (a : Action)
    (ha : Auth.allowed lower (some id) a = true) : Auth.allowed lower (some first) a = true := by
  induction links generalizing id with
  | nil =>
    obtain rfl : id = first := h
    exact ha
  | cons link older ih =>
    obtain ⟨caller, hchain, hnames, hlink⟩ := h
    exact ih caller hchain ((hlink.within_iff lower hashToken).mpr (.inl hnames) a ha)

theorem Chain.userID {first : Identity} (id : Identity) {links : List Link}
    (h : Chain lower hashToken first links id) : id.userID = first.userID := by
  induction links generalizing id with
  | nil => exact congrArg Identity.userID h
  | cons link older ih =>
    obtain ⟨caller, hchain, _, hlink⟩ := h
    exact hlink.facts.2.1.trans (ih caller hchain)

end

/-- However many tokens authority is handed on through, the last may do nothing the first caller
could not, nor above its owner's role: as long as no narrowed caller asks for scopes that are all
blank. -/
theorem authority_handed_on (lower : LowerCase) (hashToken : String → String) (first id : Identity)
    (link : Link) (older : List Link) (h : Chain lower hashToken first (link :: older) id)
    (a : Action) (ha : allowed lower (some id) a = true) :
    allowed lower (some first) a = true ∧ (first.userID ≠ "" →
      ∃ u want, link.look.user first.userID = .ok (some u) ∧ Action.minimum a = some want ∧
        u.role.atLeast want = true) := by
  refine ⟨h.allowed lower hashToken first id _ a ha, fun howner => ?_⟩
  obtain ⟨caller, hchain, _, hlink⟩ := h
  have huser : caller.userID = first.userID := hchain.userID lower hashToken caller
  obtain ⟨u, hu, hrank⟩ := hlink.facts.2.2.2 (huser ▸ howner)
  obtain ⟨want, hwant, hat, _⟩ := allowed_iff.mp ha
  rw [huser] at hu
  exact ⟨u, want, hu, hwant, atLeast_of_rank_le hat hrank⟩

theorem toLower_cases (c : Char) : c.toLower = c ∨ ∃ n < 91, 65 ≤ n ∧ Char.ofNat n = c := by
  by_cases hc : c.val ≥ 'A'.val ∧ c.val ≤ 'Z'.val
  · have hrange : 65 ≤ c.toNat ∧ c.toNat ≤ 90 := hc
    exact .inr ⟨c.toNat, by omega, hrange.1, Char.ofNat_toNat c⟩
  · exact .inl (dif_neg hc)

def asciiLower : LowerCase where
  apply := Char.toLower
  apply_apply c := by
    have hletters : ∀ n < 91, 65 ≤ n →
        (Char.ofNat n).toLower.toLower = (Char.ofNat n).toLower := by decide +kernel
    rcases toLower_cases c with hc | ⟨n, hn, hle, rfl⟩
    · rw [hc, hc]
    · exact hletters n hn hle
  isSpace_apply c := by
    have hletters : ∀ n < 91, 65 ≤ n →
        isSpace (Char.ofNat n).toLower = isSpace (Char.ofNat n) := by decide +kernel
    rcases toLower_cases c with hc | ⟨n, hn, hle, rfl⟩
    · rw [hc]
    · exact hletters n hn hle

def oneToken (t : APIToken) (u : Owner) : TokenLookups where
  byHash h := .ok (if h = t.tokenHash then some t else none)
  user id := .ok (if id = t.userID then some u else none)

def chatCaller : Identity := { role := .operator, scopes := ["assistant:*"], userID := "usr_ada" }

def chatToken (scopes : List String) : APIToken :=
  { id := "tok_12345678", name := "ci", role := .operator, ownerRole := .operator
    userID := "usr_ada", scopes := normalizeScopes asciiLower scopes
    tokenHash := "zoo_12345678_s", stem := "zoo_12345678" }

def chatLink (scopes : List String) : Link :=
  { name := "ci", role := .operator, scopes := scopes, draw := ⟨"tok_12345678", "s"⟩
    look := oneToken (chatToken scopes) ⟨.operator, false⟩ }

def chatIdentity (scopes : List String) : Identity :=
  { id := "tok_12345678", name := "ci", role := .operator, tokenID := "tok_12345678"
    userID := "usr_ada", scopes := normalizeScopes asciiLower scopes }

theorem authority_handed_on_chat : Chain asciiLower id chatCaller [chatLink [" Assistant:Own ", ""]]
        (chatIdentity [" Assistant:Own ", ""]) ∧
      allowed asciiLower (some chatCaller) "assistant.own" = true ∧ (chatCaller.userID ≠ "" →
        ∃ u want, (chatLink [" Assistant:Own ", ""]).look.user chatCaller.userID = .ok (some u) ∧
          Action.minimum "assistant.own" = some want ∧ u.role.atLeast want = true) := by
  have hchain : Chain asciiLower id chatCaller [chatLink [" Assistant:Own ", ""]]
      (chatIdentity [" Assistant:Own ", ""]) := by
    refine ⟨chatCaller, rfl, .inr (.inr ⟨" Assistant:Own ", mem_cons_self, ?_⟩),
      ⟨?_, ?_, chatToken [" Assistant:Own ", ""], "zoo_12345678_s", ?_, ?_, ?_⟩⟩
    all_goals decide +kernel
  exact ⟨hchain, authority_handed_on asciiLower id chatCaller _ _ [] hchain "assistant.own"
    (by decide +kernel)⟩

/-- A blank scope passes every check and is not stored, and an empty list stands for the whole role.
-/
theorem blank_scope_widens : Handed asciiLower id chatCaller (chatLink [" "]) (chatIdentity [" "]) ∧
      allowed asciiLower (some (chatIdentity [" "])) "runners.delete" = true ∧
      allowed asciiLower (some chatCaller) "runners.delete" = false := by
  refine ⟨⟨?_, ?_, chatToken [" "], "zoo_12345678_s", ?_, ?_, ?_⟩, ?_, ?_⟩
  all_goals decide +kernel

end Zoomies.Auth
