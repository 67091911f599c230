import Zoomies.GoFormat

/-! The authorisation policy: roles, actions, and the scopes that narrow a token below its
role. -/
namespace Zoomies.Auth
open Zoomies.Go

inductive Role
  -- A role as an account or a token carries it. A text that names none ranks nothing.
  | viewer
  | operator
  | admin
  | platform
  | unknown (text : String)
  deriving DecidableEq

namespace Role

def text : Role → String
  | viewer => "viewer"
  | operator => "operator"
  | admin => "admin"
  | platform => "platform"
  | unknown text => text

def valid : Role → Bool
  | unknown _ => false
  | _ => true

def rank : Role → Nat
  | viewer => 1
  | operator => 2
  | admin => 3
  | platform => 4
  | unknown _ => 0

def atLeast (r want : Role) : Bool := decide (want.rank ≤ r.rank ∧ 0 < r.rank)

end Role

def roleList : String := "viewer, operator, admin or platform"

abbrev Action := String

def actionRoles : List (Action × Role) :=
  [("assistant.chat", .admin), ("assistant.own", .viewer), ("assistant.read", .admin),
    ("assistant.write", .admin), ("audit.read", .viewer), ("backups.read", .platform),
    ("backups.restore", .platform), ("backups.write", .platform),
    ("comparisons.write", .operator), ("context.configure", .admin), ("context.manage", .viewer),
    ("context.publish", .viewer), ("context.read", .viewer), ("controller.read", .platform),
    ("diagnostics.read", .admin), ("events.read", .viewer), ("hosts.accept", .operator),
    ("hosts.check", .operator), ("hosts.cordon", .operator), ("hosts.delete", .admin),
    ("hosts.read", .viewer), ("hosts.update", .admin), ("hosts.write", .operator),
    ("installations.delete", .admin), ("installations.export", .admin),
    ("installations.read", .viewer), ("installations.verify", .operator),
    ("installations.write", .admin), ("jobs.acknowledge", .operator), ("jobs.cancel", .operator),
    ("jobs.read", .viewer), ("jobs.rerun", .operator), ("joins.read", .admin),
    ("joins.write", .admin), ("kennel.guidance_pr", .admin), ("kennel.guidance_preview", .admin),
    ("kennel.read", .viewer), ("kennel.recheck", .operator), ("kennel.track", .operator),
    ("kennel.untrack", .admin), ("kennel.waive", .operator), ("kennel.waive_error", .admin),
    ("logs.read", .viewer), ("machines.delete", .admin), ("machines.drain", .operator),
    ("machines.read", .viewer), ("mcp_clients.read", .admin), ("mcp_clients.write", .admin),
    ("metrics.read", .viewer), ("migrations.read", .operator), ("migrations.write", .operator),
    ("optimisations.publish", .operator), ("optimisations.read", .operator),
    ("optimisations.write", .operator), ("pools.delete", .operator), ("pools.read", .viewer),
    ("pools.write", .operator), ("problems.apply", .operator), ("providers.delete", .admin),
    ("providers.pause", .operator), ("providers.read", .viewer), ("providers.test", .operator),
    ("providers.write", .admin), ("provisioning.write", .operator), ("recovery.write", .platform),
    ("runners.delete", .operator), ("runners.drain", .operator), ("runners.read", .viewer),
    ("settings.read", .admin), ("settings.write", .admin), ("stats.read", .viewer),
    ("tokens.own", .viewer), ("tokens.read", .admin), ("tokens.write", .admin),
    ("updates.apply", .platform), ("updates.check", .admin), ("updates.read", .viewer),
    ("updates.rollout", .admin), ("usage.read", .viewer), ("users.read", .admin),
    ("users.write", .admin), ("webhooks.read", .viewer), ("webhooks.test", .operator)]

variable (lower : LowerCase) (a : Action) (s : String)

def Action.minimum : Option Role :=
  (actionRoles.find? fun row => row.1 == a).map Prod.snd

def allActions : List Action := actionRoles.map Prod.fst

def Action.resource : String := ((cut '.' a).getD (a, "")).1

def Action.verb : String := ((cut '.' a).getD (a, "")).2

def Action.scope : String := Action.resource a ++ ":" ++ Action.verb a

def impliedBy : List Action :=
  if a = "tokens.own" then ["tokens.read", "tokens.write"]
  else if a = "kennel.waive" then ["kennel.waive_error"]
  else if a = "kennel.track" then ["kennel.untrack"]
  else []

structure LowerCase where
  -- `unicode.ToLower`, of which only this is used
  apply : Char → Char
  apply_apply : ∀ c, apply (apply c) = apply c
  isSpace_apply : ∀ c, isSpace (apply c) = isSpace c

def LowerCase.clean : String :=
  String.ofList ((trimSpace s).toList.map lower.apply)

def scopeAllows (a : Action) : Bool :=
  if s = "" ∨ s = "-" then false
  else if s = "*" ∨ s = "*:*" then true
  else if s = Action.scope a then true
  else
    match cut ':' s with
    | none => false
    | some (res, verb) => res == Action.resource a && (verb == "*" || Action.verb a == "read")

def scopesAllow (scopes : List String) (a : Action) : Bool :=
  scopes.any fun s => scopeAllows (lower.clean s) a

structure Identity where
  id : String := ""
  name : String := ""
  role : Role
  scopes : List String := []
  tokenID : String := ""
  userID : String := ""
  ip : String := ""
  deriving DecidableEq

def allowed (id : Option Identity) (a : Action) : Bool :=
  match id, Action.minimum a with
  | some id, some want =>
    id.role.atLeast want && (id.scopes.isEmpty || scopesAllow lower id.scopes a ||
        (impliedBy a).any fun wider => scopesAllow lower id.scopes wider)
  | _, _ => false

def mintWithin (caller : Option Identity) (role : Role)
    (scopes : List String) : Except String Unit :=
  match caller with
  | none => .error "a token can only be minted by an authenticated caller"
  | some caller =>
    if caller.role.atLeast role = false then
      .error ("a " ++ caller.role.text ++ " cannot mint a " ++ role.text ++
        " token; a token carries no more than the caller that made it")
    else if caller.scopes = [] then .ok ()
    else if scopes = [] then
      .error ("this token is limited to " ++ join ", " caller.scopes ++
        ", so the tokens it mints need scopes within that; " ++
        "an unscoped token would carry the whole role")
    else
      let beyond := allActions.filter fun a =>
        scopesAllow lower scopes a && !scopesAllow lower caller.scopes a
      if beyond = [] then .ok ()
      else
        .error ("this token is limited to " ++ join ", " caller.scopes ++
          " and cannot mint one that reaches " ++ join ", " (beyond.map Action.scope))

def validScope : Bool :=
  s == "*" || s == "*:*" || allActions.any fun a =>
    s == Action.scope a || s == Action.resource a ++ ":*"

def validateScopes (scopes : List String) : Except String Unit :=
  let bad := (scopes.map lower.clean).filter fun s => s != "" && !validScope s
  if bad = [] then .ok ()
  else
    .error ("unknown scope " ++ join ", " bad ++ ": valid scopes are " ++
      join ", " (allActions.map Action.scope) ++ ", or <resource>:* , or *")

def normalizeScopes (scopes : List String) : List String :=
  (scopes.map lower.clean).foldl
    (fun out s => if s = "" ∨ s ∈ out then out else out ++ [s]) []

end Zoomies.Auth
