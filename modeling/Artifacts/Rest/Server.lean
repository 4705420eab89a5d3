import Artifacts.Ownership
import Artifacts.Storage.Lifecycle
import Artifacts.Webhooks.Registry

/-!
# The state behind the REST handlers

`Deployment` is what outlives a request: the repos directory, the three stores, the
queue of webhook deliveries and the clock.  `Call` is what a handler learns from its
surroundings while it serves one request.

Only what the handlers read or write of these is kept.  The clock is a field, and a request may
find it later than the one before.
-/

namespace Artifacts
namespace Rest

open Auth Ownership Rust Storage Tokens Webhooks

structure Config where
  reposDir : String
  publicBaseUrl : String
  maxReposPerUser : Nat
  /-- `validate_webhook_url` with the setting for private targets. -/
  validateWebhookUrl : String → Result Unit

structure Deployment where
  disk : Disk
  repos : Repos
  tokens : TokenStore
  webhooks : Registry
  /-- `webhook_deliveries`, as it was filled. -/
  outbox : List Delivery
  /-- Seconds since the epoch. -/
  now : Int64

structure Call where
  /-- What `authorize_rest` makes of the headers. -/
  caller : Result Principal
  /-- What the rate limiter answers. -/
  rate : Result Unit
  newRepoId : RepoId
  randomToken : Token
  uuid : String
  nowMs : Int64

structure RepoHandle where
  id : String
  remote : String
  token : Token
  deriving DecidableEq, Repr

/-- `str::strip_prefix`. -/
def stripPrefix (s pat : String) : Option String :=
  if startsWith s pat then some (String.ofList (s.toList.drop pat.toList.length)) else none

/-- `remote_url`. The token is in the URL if the base has one of the two schemes, and is not in it
otherwise. -/
def remoteUrl (cfg : Config) (id : String) (token : Token) : String :=
  let base := trimEndMatches cfg.publicBaseUrl '/'
  match stripPrefix base "https://" with
  | some rest => "https://x:" ++ token.text ++ "@" ++ rest ++ "/git/" ++ id ++ ".git"
  | none =>
      match stripPrefix base "http://" with
      | some rest => "http://x:" ++ token.text ++ "@" ++ rest ++ "/git/" ++ id ++ ".git"
      | none => base ++ "/git/" ++ id ++ ".git"

/-- The subject to record, as a typed value. -/
def typedSubject (principal : Principal) : Result (Option Subject) :=
  match principal.subject with
  | none => .ok none
  | some s => do
      let subject ← Subject.tryFrom s
      return some subject

/-- The checks that guard a request on an existing repo. -/
def existingRepo (d : Deployment) (principal : Principal) (id : String) : Result RepoId := do
  let idTyped ← RepoId.tryFrom id
  if d.disk.isRepo idTyped.text then do
    enforceOwner d.repos principal id
    return idTyped
  else
    .error (.repoNotFound id)

theorem existingRepo_eq_ok {d : Deployment} {principal : Principal} {id : String}
    {idTyped : RepoId} (h : existingRepo d principal id = .ok idTyped) :
    id = idTyped.text ∧ d.disk.isRepo idTyped.text = true ∧
      enforceOwner d.repos principal id = .ok () := by
  unfold existingRepo at h
  obtain ⟨typed, htyped, h⟩ := Result.bind_eq_ok.mp h
  split_ifs at h with hrepo
  obtain ⟨_, howner, h⟩ := Result.bind_eq_ok.mp h
  cases h
  exact ⟨RepoId.tryFrom_eq_ok.mp htyped, hrepo, howner⟩

end Rest
end Artifacts
