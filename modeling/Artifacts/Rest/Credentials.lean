import Artifacts.Rest.Server

/-!
# Token and webhook handlers

The handlers of `rest/tokens.rs` and `rest/webhooks.rs` that change a store.

Each handler is its checks and then one change of one store.  What comes of it is said in
`Serve`, where all handlers meet.
-/

namespace Artifacts
namespace Rest

open Auth Events Ownership Tokens Webhooks

variable (lib : Library) (cfg : Config)

/-! ### Tokens -/

/-- The checks of `mint_token` and `rotate_tokens`. -/
def tokenChecks (d : Deployment) (call : Call) (id : String) :
    Result (RepoId × Option Subject) := do
  let principal ← call.caller
  call.rate
  let idTyped ← existingRepo d principal id
  let subject ← typedSubject principal
  return (idTyped, subject)

/-- `mint_token`: the checks, and then the store. A call that is refused leaves the tokens as they
are. -/
def mintToken (d : Deployment) (call : Call) (id : String) (scope : Scope)
    (ttlSeconds : Option UInt64) : Deployment × Result Token :=
  match tokenChecks d call id with
  | .error e => (d, .error e)
  | .ok (idTyped, subject) =>
      let (tokens, minted) :=
        d.tokens.mint lib d.now call.randomToken idTyped scope ttlSeconds subject
      ({ d with tokens := tokens }, minted)

/-- `rotate_tokens`: revoke every token of the repo, then mint a new one. -/
def rotateTokens (d : Deployment) (call : Call) (id : String) (scope : Option Scope)
    (ttlSeconds : Option UInt64) : Deployment × Result (Nat × Token) :=
  match tokenChecks d call id with
  | .error e => (d, .error e)
  | .ok (idTyped, subject) =>
      match d.tokens.revokeAllForRepo d.now idTyped with
      | (tokens, .error e) => ({ d with tokens := tokens }, .error e)
      | (tokens, .ok revoked) =>
          match tokens.mint lib d.now call.randomToken idTyped (scope.getD .write) ttlSeconds
              subject with
          | (tokens, .error e) => ({ d with tokens := tokens }, .error e)
          | (tokens, .ok token) => ({ d with tokens := tokens }, .ok (revoked, token))

/-- What `revoke_token` checks: the owner of the repo the token is bound to, or the
admin.  A failed lookup counts as an unknown token. -/
def revokeChecks (d : Deployment) (call : Call) (token : Token) : Result Unit := do
  let principal ← call.caller
  call.rate
  let targetRepo := match d.tokens.lookup lib d.now token with
    | .ok (some record) => some record.repoId
    | .ok none | .error _ => none
  if principal = .admin then
    .ok ()
  else
    match targetRepo with
    | none => .error (.forbidden "not your token")
    | some repoId => enforceOwner d.repos principal repoId.text

/-- `revoke_token`. The caller has to own the repo that the token is for, unless it is the admin,
and learns whether it was revoked by this call. -/
def revokeToken (d : Deployment) (call : Call) (token : Token) : Deployment × Result Bool :=
  match revokeChecks lib d call token with
  | .error e => (d, .error e)
  | .ok () =>
      let (tokens, revoked) := d.tokens.revoke lib d.now token
      ({ d with tokens := tokens }, revoked)

/-! ### Webhooks -/

/-- The checks of `create_webhook`. -/
def webhookChecks (d : Deployment) (call : Call) (id url : String) : Result RepoId := do
  let principal ← call.caller
  call.rate
  let idTyped ← existingRepo d principal id
  cfg.validateWebhookUrl url
  return idTyped

/-- `create_webhook`: the checks, the target's address among them, and then the registry. -/
def createWebhook (d : Deployment) (call : Call) (id url : String) (events : List EventKind) :
    Deployment × Result String :=
  match webhookChecks cfg d call id url with
  | .error e => (d, .error e)
  | .ok idTyped =>
      let (webhooks, added) := d.webhooks.add d.now call.uuid ⟨"", idTyped, url, events⟩
      ({ d with webhooks := webhooks }, added)

/-- What `delete_webhook` checks; it draws on no rate limit. -/
def unsubscribeChecks (d : Deployment) (call : Call) (id : String) : Result RepoId := do
  let principal ← call.caller
  existingRepo d principal id

/-- `delete_webhook`. A hook of another repo is not found, even for the owner of both. -/
def deleteWebhook (d : Deployment) (call : Call) (id hookId : String) :
    Deployment × Result Bool :=
  match unsubscribeChecks d call id with
  | .error e => (d, .error e)
  | .ok idTyped =>
      let (webhooks, removed) := d.webhooks.remove d.now idTyped hookId
      ({ d with webhooks := webhooks }, removed)

end Rest
end Artifacts
