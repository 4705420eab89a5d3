import Artifacts.Foundation.Runs
import Artifacts.Rest.Serve

/-!
# Ids that are used again

A repo id is free again once its repo is deleted, and may then name another repo,
perhaps of another owner.  `History` remembers which tokens and subscriptions the
server handed out, and which of them belong to a repo that was deleted since.
Deleting a repo touches neither store, so whether the old ones are harmless depends
on what their owners did before the id is used again.

`World.Vacant` is a condition on the tokens and rows that are there just before the request.
The hash of a token is a parameter that draws new values.  Nothing here runs in between two
steps of a request.
-/

namespace Artifacts
namespace Rest

open Auth Events Foundation Tokens Webhooks

/-- What was handed out, by repo id; the old ones are those of deleted repos. -/
structure History where
  tokens : List (String × Token)
  hooks : List (String × String)
  oldTokens : List (String × Token)
  oldHooks : List (String × String)

/-- A deployment with its past: what was minted, registered and served so far. The past is what the
property speaks of; no handler reads it. -/
structure World where
  d : Deployment
  past : History

/-- Take note of one request: what was handed out for a repo whose directory has gone
is old from now on. -/
def History.note (past : History) (d d' : Deployment) (reply : Reply) : History :=
  let gone (r : String) : Bool := d.disk.isRepo r && !d'.disk.isRepo r
  { tokens := match reply with
      | .token r token => past.tokens ++ [(r, token)]
      | _ => past.tokens
    hooks := match reply with
      | .hook r hookId => past.hooks ++ [(r, hookId)]
      | _ => past.hooks
    oldTokens := past.oldTokens ++ past.tokens.filter fun p => gone p.1
    oldHooks := past.oldHooks ++ past.hooks.filter fun p => gone p.1 }

variable (lib : Library) (cfg : Config)

def World.step (w : World) (req : Request) : World :=
  let (d', reply) := serve lib cfg w.d req
  ⟨d', w.past.note w.d d' reply⟩

/-- A server that has handed out nothing yet. -/
def World.start (d : Deployment) : World := ⟨d, ⟨[], [], [], []⟩⟩

/-- **Deleting a repo ends what was handed out for it**: on a repo that exists, no
token of an earlier repo of that id authorizes a request, and no subscription of one
gets an event. -/
structure World.Sealed (w : World) : Prop where
  tokens : ∀ p ∈ w.past.oldTokens, w.d.disk.isRepo p.1 = true → ∀ required record,
    authorizeGit lib w.d.tokens w.d.now (.ok p.2.text) p.1 required ≠ .ok record
  hooks : ∀ p ∈ w.past.oldHooks, w.d.disk.isRepo p.1 = true → ∀ ev, (repoAndKind ev).1 = p.1 →
    p.2 ∉ (w.d.webhooks.publishEvent w.d.now ev).map Delivery.hookId

/-- Nothing that was handed out for an earlier repo of this id is in force. -/
def World.Vacant (w : World) (r : String) : Prop :=
  (∀ p ∈ w.past.oldTokens, p.1 = r → ¬ w.d.tokens.Live w.d.now (lib.sha256Hex p.2.text) r) ∧
    ∀ p ∈ w.past.oldHooks, p.1 = r → ¬ w.d.webhooks.Subscribed r p.2

instance (w : World) (r : String) : Decidable (w.Vacant lib r) :=
  inferInstanceAs (Decidable (_ ∧ _))

/-- A request that makes a repo finds its id vacant: no token and no hook of an earlier repo is in
force for it. -/
def World.MakesVacant (w : World) (req : Request) : Prop :=
  ∀ r ∈ made cfg w.d req, w.Vacant lib r

instance (w : World) (req : Request) : Decidable (w.MakesVacant lib cfg req) :=
  inferInstanceAs (Decidable (∀ r ∈ made cfg w.d req, w.Vacant lib r))

/-- The token a request draws hashes to a new value. With random tokens that holds but for
accidents. -/
def World.DrawsFresh (w : World) (req : Request) : Prop :=
  ∀ token ∈ req.drawn, ∀ p ∈ w.past.tokens,
    lib.sha256Hex p.2.text ≠ lib.sha256Hex token.text

instance (w : World) (req : Request) : Decidable (w.DrawsFresh lib req) :=
  inferInstanceAs (Decidable (∀ token ∈ req.drawn, ∀ p ∈ w.past.tokens, _))

/-! ### The invariants -/

/-- What every run keeps: the old ones were handed out, and a subscription that was
handed out has its row. -/
structure World.Noted (w : World) : Prop where
  oldTokens : ∀ p ∈ w.past.oldTokens, p ∈ w.past.tokens
  oldHooks : ∀ p ∈ w.past.oldHooks, p ∈ w.past.hooks
  rows : ∀ p ∈ w.past.hooks, w.d.webhooks.has p.2 = true

/-- No repo that exists has anything old in force. -/
def World.Vacated (w : World) : Prop :=
  ∀ r, w.d.disk.isRepo r = true → w.Vacant lib r

variable {lib cfg} {w : World} {req : Request}

theorem mem_note_tokens {past : History} {d d' : Deployment} {reply : Reply}
    {p : String × Token} (h : p ∈ past.tokens) : p ∈ (past.note d d' reply).tokens := by
  unfold History.note
  cases reply with
  | token r token => exact List.mem_append_left _ h
  | hook r hookId => exact h
  | other => exact h
  | failed e => exact h

theorem mem_note_hooks {past : History} {d d' : Deployment} {reply : Reply}
    {p : String × String} :
    p ∈ (past.note d d' reply).hooks ↔ p ∈ past.hooks ∨ reply = .hook p.1 p.2 := by
  unfold History.note
  cases reply with
  | hook r hookId =>
      dsimp only
      rw [List.mem_append, List.mem_singleton, Reply.hook.injEq, Prod.ext_iff, eq_comm (a := p.1),
        eq_comm (a := p.2)]
  | token r token => simp
  | other => simp
  | failed e => simp

theorem World.Noted.start (d : Deployment) : (World.start d).Noted where
  oldTokens _ h := nomatch h
  oldHooks _ h := nomatch h
  rows _ h := nomatch h

theorem World.Noted.step (h : w.Noted) (req : Request) : (w.step lib cfg req).Noted where
  oldTokens p hp := by
    apply mem_note_tokens
    rcases List.mem_append.mp hp with hold | hgone
    · exact h.oldTokens p hold
    · exact (List.mem_filter.mp hgone).1
  oldHooks p hp := by
    apply mem_note_hooks.mpr
    left
    rcases List.mem_append.mp hp with hold | hgone
    · exact h.oldHooks p hold
    · exact (List.mem_filter.mp hgone).1
  rows p hp := by
    rcases mem_note_hooks.mp hp with hold | hnew
    · exact (serve_effect lib cfg req).keepsIds p.2 (h.rows p hold)
    · exact has_of_hookReply lib cfg hnew

/-- What is old behind a step, of a repo that exists then, was old before. -/
theorem mem_old_of_isRepo {α : Type} {old handedOut : List (String × α)}
    {before after : String → Bool} {p : String × α}
    (hp : p ∈ old ++ handedOut.filter fun p => before p.1 && !after p.1)
    (hrepo : after p.1 = true) : p ∈ old := by
  rcases List.mem_append.mp hp with hold | hgone
  · exact hold
  · have hdeleted := (List.mem_filter.mp hgone).2
    rw [Bool.and_eq_true, Bool.not_eq_true'] at hdeleted
    exact absurd hrepo (Bool.eq_false_iff.mp hdeleted.2)

/-- The old tokens of a repo that exists after a step were old before it. -/
theorem mem_oldTokens_step {p : String × Token} (hp : p ∈ (w.step lib cfg req).past.oldTokens)
    (hrepo : (w.step lib cfg req).d.disk.isRepo p.1 = true) : p ∈ w.past.oldTokens :=
  mem_old_of_isRepo hp hrepo

theorem mem_oldHooks_step {p : String × String} (hp : p ∈ (w.step lib cfg req).past.oldHooks)
    (hrepo : (w.step lib cfg req).d.disk.isRepo p.1 = true) : p ∈ w.past.oldHooks :=
  mem_old_of_isRepo hp hrepo

/-- **The step lemma**: what is vacant stays so, if the repos that are made find
their ids vacant. -/
theorem World.Vacated.step (hnoted : w.Noted) (h : w.Vacated lib)
    (hfresh : w.DrawsFresh lib req) (hmakes : w.MakesVacant lib cfg req) :
    (w.step lib cfg req).Vacated lib := by
  intro r hrepo
  have heffect := serve_effect lib cfg (d := w.d) req
  have hvacant : w.Vacant lib r := by
    rcases heffect.isRepo r hrepo with hold | hmade
    · exact h r hold
    · exact hmakes r hmade
  constructor
  · intro p hp heq hlive
    have hold : p ∈ w.past.oldTokens := mem_oldTokens_step hp (heq.symm ▸ hrepo)
    rcases heffect.live _ _ hlive with hbefore | hdrawn
    · exact hvacant.1 p hold heq hbefore
    · -- the drawn token would have the hash of an old one
      obtain ⟨token, htoken, hhash⟩ := Option.map_eq_some_iff.mp hdrawn
      exact hfresh token htoken p (hnoted.oldTokens p hold) hhash.symm
  · intro p hp heq hsubscribed
    have hold : p ∈ w.past.oldHooks := mem_oldHooks_step hp (heq.symm ▸ hrepo)
    rcases heffect.subscribed _ _ hsubscribed with hbefore | hunused
    · exact hvacant.2 p hold heq hbefore
    · exact absurd (hnoted.rows p (hnoted.oldHooks p hold)) (Bool.eq_false_iff.mp hunused)

theorem World.Vacated.sealed (h : w.Vacated lib) : w.Sealed lib where
  tokens p hp hrepo required record hauth :=
    (h p.1 hrepo).1 p hp rfl (exists_authorizeGit_iff.mp ⟨required, record, hauth⟩)
  hooks p hp hrepo ev hev hmem := by
    have hvalid : ∃ repoId : RepoId, p.1 = repoId.text := by
      unfold Registry.publishEvent at hmem
      split at hmem
      · rename_i repoId hrepoId
        exact ⟨repoId, hev.symm.trans (RepoId.tryFrom_eq_ok.mp hrepoId)⟩
      · cases hmem
    obtain ⟨repoId, htext⟩ := hvalid
    refine (h p.1 hrepo).2 p hp rfl ?_
    rw [htext]
    exact Registry.exists_delivery_iff.mp ⟨ev, hev.trans htext, hmem⟩

/-- Conversely, a repo that exists in a sealed world is vacant. -/
theorem World.Sealed.vacant (h : w.Sealed lib) (repoId : RepoId)
    (hrepo : w.d.disk.isRepo repoId.text = true) : w.Vacant lib repoId.text := by
  constructor
  · intro p hp heq hlive
    obtain ⟨required, record, hauth⟩ := exists_authorizeGit_iff.mpr hlive
    rw [← heq] at hrepo hauth
    exact h.tokens p hp hrepo required record hauth
  · intro p hp heq hsubscribed
    obtain ⟨ev, hev, hmem⟩ := Registry.exists_delivery_iff.mpr hsubscribed
    rw [← heq] at hrepo hev
    exact h.hooks p hp hrepo ev hev hmem

theorem made_eq_some {d : Deployment} {r : String} (h : made cfg d req = some r) :
    ∃ repoId : RepoId, r = repoId.text := by
  unfold made at h
  split at h
  · split at h
    · cases h
    · dsimp only at h
      split_ifs at h
      exact ⟨_, (Option.some.inj h).symm⟩
  · split at h
    · cases h
    · dsimp only at h
      split_ifs at h
      exact ⟨_, (Option.some.inj h).symm⟩
  · cases h

/-- A request that makes a repo at an id that is not vacant breaks the seal. -/
theorem World.makesVacant_of_sealed (hafter : (w.step lib cfg req).Sealed lib) :
    w.MakesVacant lib cfg req := by
  intro r hmade
  have heffect := serve_effect lib cfg (d := w.d) req
  have hne : made cfg w.d req ≠ none := fun hnone => nomatch hnone.symm.trans hmade
  obtain ⟨repoId, rfl⟩ := made_eq_some hmade
  have hvacant := hafter.vacant repoId (heffect.makes _ hmade)
  constructor
  · intro p hp heq hlive
    exact hvacant.1 p (List.mem_append_left _ hp) heq (heffect.keepsLive _ _ hne hlive)
  · intro p hp heq hsubscribed
    exact hvacant.2 p (List.mem_append_left _ hp) heq
      (heffect.keepsSubscribed _ _ hne hsubscribed)

/-! ### Sample runs -/

/-- SHA-256 of the two tokens of the runs below. -/
def sampleLibrary : Library where
  sha256Hex s :=
    if s = "alice-token-0001" then
      "df01f19546dddd621e80e6bb4834c2f1e193a1a4a543c18e5f36504dce6b96cf"
    else if s = "bob-token-0002" then
      "b200b81780bfa349c2a6b76aaceec97ad0e57d41a97e72931b312b641f49be72"
    else
      ""
  printable c := decide (' ' ≤ c ∧ c ≤ '~')

def sampleConfig : Config where
  reposDir := "/data/repos"
  publicBaseUrl := "https://git.example"
  maxReposPerUser := 100
  validateWebhookUrl _ := .ok ()

def emptyDeployment : Deployment where
  disk := ⟨[], fun _ => none, fun _ h => nomatch h⟩
  repos := Table.empty
  tokens := TokenStore.empty
  webhooks := Table.empty
  outbox := []
  now := 1700000000

def alice : Subject := ⟨"alice", rfl⟩

def aliceToken : Token := ⟨"alice-token-0001", rfl⟩

def bobToken : Token := ⟨"bob-token-0002", rfl⟩

def demoRepo : RepoId := ⟨"demo", rfl⟩

def aliceHook : String := "6f1c2f7e-8f0d-4a39-9d56-0f5f4a1f3c11"

def sampleCall (subject : String) (token : Token) : Call where
  caller := .ok (.user subject)
  rate := .ok ()
  newRepoId := demoRepo
  randomToken := token
  uuid := aliceHook
  nowMs := 1700000000000

/-- Alice makes the repo `demo`, subscribes to it and deletes it; Bob takes the id. -/
def handedOver : List Request :=
  [.createRepo (sampleCall "alice" aliceToken) (some demoRepo),
    .createWebhook (sampleCall "alice" aliceToken) "demo" "https://alice.example/hook" [],
    .deleteRepo (sampleCall "alice" aliceToken) (fun _ => none) "demo" none none,
    .createRepo (sampleCall "bob" bobToken) (some demoRepo)]

/-- The same, but Alice first takes back what she was given. -/
def handedOverClean : List Request :=
  [.createRepo (sampleCall "alice" aliceToken) (some demoRepo),
    .createWebhook (sampleCall "alice" aliceToken) "demo" "https://alice.example/hook" [],
    .deleteWebhook (sampleCall "alice" aliceToken) "demo" aliceHook,
    .revokeToken (sampleCall "alice" aliceToken) aliceToken,
    .deleteRepo (sampleCall "alice" aliceToken) (fun _ => none) "demo" none none,
    .createRepo (sampleCall "bob" bobToken) (some demoRepo)]


/-! ### Runs -/

/-- **When ids can be used again.** Along a run the seal holds in every state if and only if every
repo that is made finds its id vacant: the tokens of earlier repos of that id are revoked or
expired, their subscriptions removed. The run is any list of requests, from any deployment that has
handed out nothing yet. Requests are served one after another, and the tokens that are drawn hash to
new values. -/
theorem reuse_sealed_iff (d : Deployment) (requests : List Request)
    (hfresh : EveryStep (World.step lib cfg) (World.DrawsFresh lib) (.start d) requests) :
    EveryState (World.step lib cfg) (World.Sealed lib) (.start d) requests ↔
      EveryStep (World.step lib cfg) (World.MakesVacant lib cfg) (.start d) requests := by
  constructor
  · intro h
    exact everyStep_of_everyState (I := fun _ => True) (fun _ _ _ _ => trivial)
      (fun w req _ _ hafter => World.makesVacant_of_sealed hafter) trivial h
  · intro h
    have hstart : (World.start d).Noted ∧ (World.start d).Vacated lib :=
      ⟨World.Noted.start d, fun r _ => ⟨fun _ hp => (nomatch hp), fun _ hp => (nomatch hp)⟩⟩
    refine everyState_of_everyStep (I := fun w => w.Noted ∧ w.Vacated lib)
      (fun w hw => hw.2.sealed) ?_ hstart (hfresh.and h)
    intro w req hw hstep
    exact ⟨hw.1.step req, hw.2.step hw.1 hstep.1 hstep.2⟩

theorem reuse_sealed_after_revocation :
    EveryState (World.step sampleLibrary sampleConfig) (World.Sealed sampleLibrary)
      (.start emptyDeployment) handedOverClean :=
  (reuse_sealed_iff emptyDeployment handedOverClean (by decide)).mpr (by decide)

/-- Deleting the repo leaves Alice's token and subscription in force: when Bob owns the
id, she may still push to it, and the news that it exists goes to her hook. -/
theorem reuse_admits_old_owner :
    let w := handedOver.foldl (World.step sampleLibrary sampleConfig) (.start emptyDeployment)
    EveryStep (World.step sampleLibrary sampleConfig) (World.DrawsFresh sampleLibrary)
        (.start emptyDeployment) handedOver ∧
      (w.d.repos.find? "demo").map (·.ownerSubject) = some (some "bob") ∧
      authorizeGit sampleLibrary w.d.tokens w.d.now (.ok aliceToken.text) "demo" .write =
        .ok ⟨demoRepo, .write⟩ ∧
      w.d.outbox.map (fun delivery => (delivery.hookId, delivery.payload)) =
        [(aliceHook, .status "demo" "unknown" "idle" 1700000000000)] ∧
      ¬ EveryState (World.step sampleLibrary sampleConfig) (World.Sealed sampleLibrary)
        (.start emptyDeployment) handedOver := by
  refine ⟨by decide, by decide, rfl, by decide, fun h => ?_⟩
  have hend := everyState_iff_prefix.mp h handedOver (List.prefix_refl _)
  exact hend.tokens ("demo", aliceToken) (by decide) (by decide) .write ⟨demoRepo, .write⟩ rfl

end Rest
end Artifacts
