import Artifacts.Rest.Credentials
import Artifacts.Rest.Repos

/-!
# Serving one request

`serve` dispatches a request to its handler.  The effect lemmas say what a request
can do to the three things that decide who gets at a repo: which directories there
are, which tokens are live and which subscriptions are in force.

`Effect` is what a request may do, case by case, so that results on runs need not look at handlers.
`Reply` keeps what the caller is told, for results on what a caller can learn.
-/

namespace Artifacts
namespace Rest

open Auth Events Ownership Rust Storage Tokens Webhooks

inductive Request where
  | createRepo (call : Call) (id : Option RepoId)
  | forkRepo (call : Call) (sourceId : String) (id : Option RepoId) (readOnly : Bool)
  | deleteRepo (call : Call) (cache : String → Option String) (id : String)
      (force cascade : Option Bool)
  | mintToken (call : Call) (id : String) (scope : Scope) (ttlSeconds : Option UInt64)
  | rotateTokens (call : Call) (id : String) (scope : Option Scope) (ttlSeconds : Option UInt64)
  | revokeToken (call : Call) (token : Token)
  | createWebhook (call : Call) (id url : String) (events : List EventKind)
  | deleteWebhook (call : Call) (id hookId : String)
  /-- The hourly sweep of the token table. -/
  | pruneTokens (expiryGrace : UInt64)
  /-- A new reading of the clock, which does not go back. -/
  | clock (systemTime : Int64)

/-- The token that a request draws to mint it. -/
def Request.drawn : Request → Option Token
  | .createRepo call .. | .forkRepo call .. | .mintToken call .. | .rotateTokens call .. =>
      some call.randomToken
  | _ => none

/-- What the client gets that lets it at a repo later: a token, or the id of a webhook. Other
answers are left out, apart from the error of a call that failed. -/
inductive Reply where
  | token (id : String) (token : Token)
  | hook (id : String) (hookId : String)
  | other
  | failed (e : Error)

def handleReply : Result RepoHandle → Reply
  | .ok handle => .token handle.id handle.token
  | .error e => .failed e

def tokenReply (id : String) : Result Token → Reply
  | .ok token => .token id token
  | .error e => .failed e

def hookReply (id : String) : Result String → Reply
  | .ok hookId => .hook id hookId
  | .error e => .failed e

def plainReply {α : Type} : Result α → Reply
  | .ok _ => .other
  | .error e => .failed e

variable (lib : Library) (cfg : Config)

/-- One request, served. -/
def serve (d : Deployment) : Request → Deployment × Reply
  | .createRepo call id =>
      let (d, reply) := createRepo lib cfg d call id
      (d, handleReply reply)
  | .forkRepo call sourceId id readOnly =>
      let (d, reply) := forkRepo lib cfg d call sourceId id readOnly
      (d, handleReply reply)
  | .deleteRepo call cache id force cascade =>
      let (d, reply) := deleteRepo d call cache id force cascade
      (d, plainReply reply)
  | .mintToken call id scope ttlSeconds =>
      let (d, reply) := mintToken lib d call id scope ttlSeconds
      (d, tokenReply id reply)
  | .rotateTokens call id scope ttlSeconds =>
      let (d, reply) := rotateTokens lib d call id scope ttlSeconds
      (d, tokenReply id (reply.map Prod.snd))
  | .revokeToken call token =>
      let (d, reply) := revokeToken lib d call token
      (d, plainReply reply)
  | .createWebhook call id url events =>
      let (d, reply) := createWebhook cfg d call id url events
      (d, hookReply id reply)
  | .deleteWebhook call id hookId =>
      let (d, reply) := deleteWebhook d call id hookId
      (d, plainReply reply)
  | .pruneTokens expiryGrace =>
      ({ d with tokens := (d.tokens.prune d.now expiryGrace).1 }, .other)
  | .clock systemTime =>
      (if d.now ≤ nowSecs systemTime then { d with now := nowSecs systemTime } else d, .other)

/-- The repo whose directory a request makes: a create or a fork that passes its
checks, of an id whose path is free. -/
def made (d : Deployment) : Request → Option String
  | .createRepo call id =>
      match createChecks cfg d call with
      | .error _ => none
      | .ok _ =>
          let target := (id.getD call.newRepoId).text
          if d.disk.pathExists target then none else some target
  | .forkRepo call sourceId id _ =>
      match forkChecks cfg d call sourceId with
      | .error _ => none
      | .ok _ =>
          let target := (id.getD call.newRepoId).text
          if d.disk.pathExists target then none else some target
  | _ => none

/-! ### What a request can do -/

/-- What one request does to directories, tokens and subscriptions; `target` is the
repo it makes, `drawn` the hash of the token it draws. -/
structure Effect (d d' : Deployment) (target drawn : Option String) : Prop where
  isRepo : ∀ r, d'.disk.isRepo r = true → d.disk.isRepo r = true ∨ target = some r
  makes : ∀ r, target = some r → d'.disk.isRepo r = true
  live : ∀ hash r, d'.tokens.Live d'.now hash r → d.tokens.Live d.now hash r ∨ drawn = some hash
  keepsLive : ∀ hash r, target ≠ none → d.tokens.Live d.now hash r → d'.tokens.Live d'.now hash r
  subscribed : ∀ r hookId, d'.webhooks.Subscribed r hookId →
    d.webhooks.Subscribed r hookId ∨ d.webhooks.has hookId = false
  keepsSubscribed : ∀ r hookId, target ≠ none → d.webhooks.Subscribed r hookId →
    d'.webhooks.Subscribed r hookId
  keepsIds : ∀ hookId, d.webhooks.has hookId = true → d'.webhooks.has hookId = true

variable {d : Deployment}

/-- A request that fails its checks does nothing. -/
theorem Effect.refl (d : Deployment) (drawn : Option String) : Effect d d none drawn where
  isRepo _ h := Or.inl h
  makes _ h := nomatch h
  live _ _ h := Or.inl h
  keepsLive _ _ h := absurd rfl h
  subscribed _ _ h := Or.inl h
  keepsSubscribed _ _ h := absurd rfl h
  keepsIds _ h := h

/-- A request that only changes the token table, and leaves no new row but the one
of the drawn token. -/
theorem Effect.of_tokens {tokens : TokenStore} {drawn : Option String}
    (hlive : ∀ hash r, tokens.Live d.now hash r → d.tokens.Live d.now hash r ∨ drawn = some hash) :
    Effect d { d with tokens := tokens } none drawn :=
  { Effect.refl d drawn with
    live := hlive
    keepsLive := fun _ _ h => absurd rfl h }

/-- A request that only changes the webhook table. -/
theorem Effect.of_webhooks {webhooks : Registry} {drawn : Option String}
    (hsubscribed : ∀ r hookId, webhooks.Subscribed r hookId →
      d.webhooks.Subscribed r hookId ∨ d.webhooks.has hookId = false)
    (hids : ∀ hookId, d.webhooks.has hookId = true → webhooks.has hookId = true) :
    Effect d { d with webhooks := webhooks } none drawn :=
  { Effect.refl d drawn with
    subscribed := hsubscribed
    keepsSubscribed := fun _ _ h => absurd rfl h
    keepsIds := hids }

/-- A request that makes a directory and may mint a token. -/
theorem Effect.of_made {d' : Deployment} {target hash : String}
    (hdisk : ∀ r, d'.disk.isRepo r = (decide (r = target) || d.disk.isRepo r))
    (hlive : ∀ h r, d'.tokens.Live d'.now h r → d.tokens.Live d.now h r ∨ some hash = some h)
    (hkeeps : ∀ h r, d.tokens.Live d.now h r → d'.tokens.Live d'.now h r)
    (hwebhooks : d'.webhooks = d.webhooks) : Effect d d' (some target) (some hash) where
  isRepo r h := by
    rw [hdisk, Bool.or_eq_true, decide_eq_true_eq] at h
    rcases h with heq | hold
    · exact Or.inr (congrArg some heq.symm)
    · exact Or.inl hold
  makes r h := by
    cases h
    rw [hdisk, decide_eq_true rfl, Bool.true_or]
  live := hlive
  keepsLive h r _ hr := hkeeps h r hr
  subscribed r hookId h := Or.inl (hwebhooks ▸ h)
  keepsSubscribed r hookId _ h := hwebhooks.symm ▸ h
  keepsIds hookId h := hwebhooks.symm ▸ h

/-! ### Creating and forking -/

theorem register_effect {disk : Disk} (call : Call) (principal : Principal) (id : RepoId)
    (scope : Scope) (ev : Event)
    (hdisk : ∀ r, disk.isRepo r = (decide (r = id.text) || d.disk.isRepo r)) :
    Effect d (register lib cfg { d with disk := disk } call principal id scope ev).1
      (some id.text) (some (lib.sha256Hex call.randomToken.text)) := by
  unfold register
  split
  · exact Effect.of_made hdisk (fun _ _ h => Or.inl h) (fun _ _ h => h) rfl
  · rename_i owner _
    dsimp only
    have hcases := TokenStore.mint_cases lib d.tokens d.now call.randomToken id scope none owner
    split
    · -- the hash was taken: recorded, but no token
      exact Effect.of_made hdisk (fun _ _ h => Or.inl h) (fun _ _ h => h) rfl
    · rename_i tokens token hmint
      have htokens : tokens =
          (d.tokens.mint lib d.now call.randomToken id scope none owner).1 := by rw [hmint]
      refine Effect.of_made hdisk ?_ ?_ rfl
      · intro h r hlive
        by_cases hdrawn : lib.sha256Hex call.randomToken.text = h
        · exact Or.inr (congrArg some hdrawn)
        · exact Or.inl (TokenStore.Live.of_mint (htokens ▸ hlive) (Ne.symm hdrawn))
      · intro h r hlive
        show tokens.Live d.now h r
        rw [htokens]
        exact hlive.mint call.randomToken id scope none owner

theorem createRepo_effect (call : Call) (id : Option RepoId) :
    Effect d (createRepo lib cfg d call id).1 (made cfg d (.createRepo call id))
      (some (lib.sha256Hex call.randomToken.text)) := by
  unfold createRepo made
  dsimp only
  cases createChecks cfg d call with
  | error e => exact Effect.refl d _
  | ok principal =>
      dsimp only
      by_cases hpath : d.disk.pathExists (id.getD call.newRepoId).text = true
      · rw [if_pos hpath, FsStorage.create, if_pos hpath]
        exact Effect.refl d _
      · rw [if_neg hpath, FsStorage.create, if_neg hpath]
        exact register_effect lib cfg call principal _ _ _
          (Disk.isRepo_makeDir d.disk _ · bareRepo)

theorem forkRepo_effect (call : Call) (sourceId : String) (id : Option RepoId) (readOnly : Bool) :
    Effect d (forkRepo lib cfg d call sourceId id readOnly).1
      (made cfg d (.forkRepo call sourceId id readOnly))
      (some (lib.sha256Hex call.randomToken.text)) := by
  unfold forkRepo made
  dsimp only
  cases hchecks : forkChecks cfg d call sourceId with
  | error e => exact Effect.refl d _
  | ok checked =>
      obtain ⟨principal, sourceIdTyped⟩ := checked
      obtain ⟨-, hsource⟩ := forkChecks_eq_ok hchecks
      dsimp only
      by_cases hpath : d.disk.pathExists (id.getD call.newRepoId).text = true
      · rw [if_pos hpath, FsStorage.fork, hsource, if_pos hpath]
        exact Effect.refl d _
      · have hdisk := FsStorage.isRepo_fork cfg.reposDir hsource
          (Bool.eq_false_iff.mpr hpath)
        rw [if_neg hpath]
        unfold FsStorage.fork at hdisk ⊢
        rw [hsource, if_neg hpath] at hdisk ⊢
        exact register_effect lib cfg call principal _ _ _ hdisk

/-! ### Deleting -/

theorem removeRepos_effect (order : List String) (drawn : Option String) :
    Effect d (removeRepos d order).1 none drawn := by
  induction order generalizing d with
  | nil => exact Effect.refl d drawn
  | cons dep rest ih =>
      unfold removeRepos
      split
      · exact Effect.refl d drawn
      · rename_i depTyped _
        have hgone := FsStorage.isRepo_delete d.disk depTyped
        split
        · exact Effect.refl d drawn
        · rename_i disk hdelete
          rw [hdelete] at hgone
          have hrest := ih (d := { d with disk := disk, repos := d.repos.remove depTyped })
          refine { hrest with isRepo := ?_ }
          intro r h
          -- what is there at the end was there after the first removal
          have hmid : disk.isRepo r = true := (hrest.isRepo r h).resolve_right nofun
          rw [hgone, Bool.and_eq_true] at hmid
          exact Or.inl hmid.2

theorem deleteRepo_effect (call : Call) (cache : String → Option String) (id : String)
    (force cascade : Option Bool) (drawn : Option String) :
    Effect d (deleteRepo d call cache id force cascade).1 none drawn := by
  unfold deleteRepo
  split
  · exact Effect.refl d drawn
  · rename_i order _
    have hremove := removeRepos_effect (d := d) order drawn
    split
    · rename_i d' e hremoved
      rwa [hremoved] at hremove
    · rename_i d' hremoved
      rwa [hremoved] at hremove

/-! ### Tokens -/

/-- Minting leaves no new live hash but that of the drawn token. -/
theorem live_of_mint {tokens : TokenStore} {now : Int64} {token : Token} {id : RepoId}
    {scope : Scope} {ttl : Option UInt64} {subject : Option Subject} {hash r : String}
    (h : (tokens.mint lib now token id scope ttl subject).1.Live now hash r) :
    tokens.Live now hash r ∨ some (lib.sha256Hex token.text) = some hash := by
  by_cases hdrawn : lib.sha256Hex token.text = hash
  · exact Or.inr (congrArg some hdrawn)
  · exact Or.inl (TokenStore.Live.of_mint h (Ne.symm hdrawn))

theorem mintToken_effect (call : Call) (id : String) (scope : Scope) (ttl : Option UInt64) :
    Effect d (mintToken lib d call id scope ttl).1 none
      (some (lib.sha256Hex call.randomToken.text)) := by
  unfold mintToken
  split
  · exact Effect.refl d _
  · exact Effect.of_tokens fun _ _ h => live_of_mint lib h

theorem rotateTokens_effect (call : Call) (id : String) (scope : Option Scope)
    (ttl : Option UInt64) :
    Effect d (rotateTokens lib d call id scope ttl).1 none
      (some (lib.sha256Hex call.randomToken.text)) := by
  unfold rotateTokens
  split
  · exact Effect.refl d _
  · rename_i idTyped subject _
    have hminted : ∀ hash r,
        ((d.tokens.revokeAllForRepo d.now idTyped).1.mint lib d.now call.randomToken idTyped
          (scope.getD .write) ttl subject).1.Live d.now hash r →
        d.tokens.Live d.now hash r ∨
          some (lib.sha256Hex call.randomToken.text) = some hash := by
      intro hash r h
      rcases live_of_mint lib h with hrevoked | hdrawn
      · exact Or.inl (TokenStore.Live.of_setRevoked hrevoked)
      · exact Or.inr hdrawn
    dsimp only [TokenStore.revokeAllForRepo] at hminted ⊢
    split
    · rename_i tokens e hmint
      rw [hmint] at hminted
      exact Effect.of_tokens hminted
    · rename_i tokens token hmint
      rw [hmint] at hminted
      exact Effect.of_tokens hminted

theorem revokeToken_effect (call : Call) (token : Token) (drawn : Option String) :
    Effect d (revokeToken lib d call token).1 none drawn := by
  unfold revokeToken
  split
  · exact Effect.refl d drawn
  · exact Effect.of_tokens fun _ _ h => Or.inl (TokenStore.Live.of_setRevoked h)

/-! ### Webhooks -/

theorem createWebhook_effect (call : Call) (id url : String) (events : List EventKind)
    (drawn : Option String) :
    Effect d (createWebhook cfg d call id url events).1 none drawn := by
  unfold createWebhook
  split
  · exact Effect.refl d drawn
  · rename_i idTyped _
    dsimp only
    rcases Registry.add_cases d.webhooks d.now call.uuid ⟨"", idTyped, url, events⟩ rfl with
      ⟨-, hsame⟩ | ⟨-, hnew, hmem⟩
    · rw [hsame]
      exact Effect.refl d drawn
    · refine Effect.of_webhooks ?_ ?_
      · intro r hookId h
        obtain ⟨row, hrow, hid, hrest⟩ := h
        rcases (hmem row).mp hrow with hold | rfl
        · exact Or.inl ⟨row, hold, hid, hrest⟩
        · exact Or.inr (hid ▸ hnew)
      · intro hookId h
        obtain ⟨row, hrow, hid⟩ := Foundation.Table.has_iff.mp h
        exact Foundation.Table.has_iff.mpr ⟨row, (hmem row).mpr (Or.inl hrow), hid⟩

theorem deleteWebhook_effect (call : Call) (id hookId : String) (drawn : Option String) :
    Effect d (deleteWebhook d call id hookId).1 none drawn := by
  unfold deleteWebhook
  split
  · exact Effect.refl d drawn
  · rename_i idTyped _
    refine Effect.of_webhooks (fun _ _ h => Or.inl (Registry.Subscribed.of_remove h)) ?_
    intro other h
    exact (Registry.has_remove d.webhooks d.now idTyped hookId other).trans h

/-! ### The sweep and the clock -/

theorem pruneTokens_effect (grace : UInt64) (drawn : Option String) :
    Effect d { d with tokens := (d.tokens.prune d.now grace).1 } none drawn :=
  Effect.of_tokens fun _ _ h => Or.inl (TokenStore.Live.of_prune h)

theorem clock_effect {now : Int64} (hle : d.now ≤ now) (drawn : Option String) :
    Effect d { d with now := now } none drawn :=
  { Effect.refl d drawn with
    live := fun _ _ h => Or.inl (h.of_le hle)
    keepsLive := fun _ _ h => absurd rfl h }

/-- The hash of the token a request draws. -/
def drawnHash (req : Request) : Option String :=
  req.drawn.map fun token => lib.sha256Hex token.text

/-- **What a request can do**, for every request. -/
theorem serve_effect (req : Request) :
    Effect d (serve lib cfg d req).1 (made cfg d req) (drawnHash lib req) := by
  cases req with
  | createRepo call id => exact createRepo_effect lib cfg call id
  | forkRepo call sourceId id readOnly => exact forkRepo_effect lib cfg call sourceId id readOnly
  | deleteRepo call cache id force cascade => exact deleteRepo_effect call cache id force cascade _
  | mintToken call id scope ttl => exact mintToken_effect lib call id scope ttl
  | rotateTokens call id scope ttl => exact rotateTokens_effect lib call id scope ttl
  | revokeToken call token => exact revokeToken_effect lib call token _
  | createWebhook call id url events => exact createWebhook_effect cfg call id url events _
  | deleteWebhook call id hookId => exact deleteWebhook_effect call id hookId _
  | pruneTokens grace => exact pruneTokens_effect grace _
  | clock systemTime =>
      unfold serve
      dsimp only
      split
      · rename_i hle
        exact clock_effect hle _
      · exact Effect.refl d _

theorem handleReply_ne_hook (result : Result RepoHandle) (r hookId : String) :
    handleReply result ≠ .hook r hookId := by
  cases result <;> nofun

theorem tokenReply_ne_hook (id : String) (result : Result Token) (r hookId : String) :
    tokenReply id result ≠ .hook r hookId := by
  cases result <;> nofun

theorem plainReply_ne_hook {α : Type} (result : Result α) (r hookId : String) :
    plainReply result ≠ .hook r hookId := by
  cases result <;> nofun

/-- The subscription a client is told of has its row. -/
theorem has_of_hookReply {req : Request} {r hookId : String}
    (h : (serve lib cfg d req).2 = .hook r hookId) :
    (serve lib cfg d req).1.webhooks.has hookId = true := by
  cases req with
  | createWebhook call id url events =>
      unfold serve createWebhook at h ⊢
      dsimp only at h ⊢
      split at h
      · cases h
      · dsimp only at h ⊢
        rename_i idTyped _
        rcases Registry.add_cases d.webhooks d.now call.uuid ⟨"", idTyped, url, events⟩ rfl with
          ⟨⟨cause, hfailed⟩, -⟩ | ⟨hadded, -, hmem⟩
        · rw [hfailed] at h
          cases h
        · rw [hadded] at h
          cases h
          exact Foundation.Table.has_iff.mpr ⟨_, (hmem _).mpr (Or.inr rfl), rfl⟩
  | createRepo call id => exact absurd h (handleReply_ne_hook _ _ _)
  | forkRepo call sourceId id readOnly => exact absurd h (handleReply_ne_hook _ _ _)
  | deleteRepo call cache id force cascade => exact absurd h (plainReply_ne_hook _ _ _)
  | mintToken call id scope ttl => exact absurd h (tokenReply_ne_hook _ _ _ _)
  | rotateTokens call id scope ttl => exact absurd h (tokenReply_ne_hook _ _ _ _)
  | revokeToken call token => exact absurd h (plainReply_ne_hook _ _ _)
  | deleteWebhook call id hookId' => exact absurd h (plainReply_ne_hook _ _ _)
  | pruneTokens grace => cases h
  | clock systemTime => cases h

end Rest
end Artifacts
