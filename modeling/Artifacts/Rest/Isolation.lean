import Artifacts.Foundation.Runs
import Artifacts.Rest.Reuse

/-!
# What others cannot do to a repo

A request that neither the admin nor the owner of a repo makes leaves the repo alone: its
directory, its row, its tokens and its subscriptions, and no fork of it is made.  `Leaves`
says so of two states, each handler keeps it, and so does every run of such requests.

`Request.Foreign` is a request of somebody else; expiry goes on meanwhile, and so does the pruning
of what has expired.  `GraceFits` keeps the grace period of a prune within what the cast
allows.  Requests are served one after another.
-/

namespace Artifacts
namespace Rest

open Auth Foundation Ownership Rust Storage Tokens Webhooks

/-- The call of a request that a client makes. -/
def Request.call : Request → Option Call
  | .createRepo call _ | .forkRepo call .. | .deleteRepo call .. | .mintToken call ..
  | .rotateTokens call .. | .revokeToken call _ | .createWebhook call .. | .deleteWebhook call .. =>
      some call
  | .pruneTokens _ | .clock _ => none

/-- Neither the admin nor this user. -/
def Outsider (owner : Subject) (principal : Principal) : Prop :=
  principal ≠ .admin ∧ principal ≠ .user owner.text

/-- A request of someone else, or of the server itself. Whom the credentials name counts, and not
what they hold. -/
def Request.Foreign (owner : Subject) (req : Request) : Prop :=
  ∀ call ∈ req.call, ∀ principal, call.caller = .ok principal → Outsider owner principal

/-- A repo that has an owner: its directory is there, and its row names the user. -/
structure HeldBy (r : RepoId) (owner : Subject) (d : Deployment) : Prop where
  isRepo : d.disk.isRepo r.text = true
  owner : d.repos.getOwner r = some (some owner)

/-- The alternates file of a fork of a repo. -/
def alternatesOf (cfg : Config) (r : RepoId) : String :=
  cfg.reposDir ++ "/" ++ r.text ++ ".git/objects\n"

/-- From `d` to `d'` nothing has happened to a repo, but that some of its tokens expired. -/
structure Leaves (cfg : Config) (r : RepoId) (d d' : Deployment) : Prop where
  dir : d'.disk.repo r.text = d.disk.repo r.text
  row : d'.repos.find? r.text = d.repos.find? r.text
  minted : ∀ row ∈ d'.tokens.table, row.repoId = r.text → row ∈ d.tokens.table
  kept : ∀ row ∈ d.tokens.table, row.repoId = r.text →
    row ∈ d'.tokens.table ∨ row.active d'.now = false
  hooks : ∀ row : WebhookRow, row.repoId = r.text → (row ∈ d'.webhooks ↔ row ∈ d.webhooks)
  forks : ∀ id, d'.disk.alternates id = some (alternatesOf cfg r) →
    d.disk.alternates id = some (alternatesOf cfg r)
  later : d.now ≤ d'.now

variable {lib : Library} {cfg : Config} {r : RepoId} {owner : Subject} {d d' d'' : Deployment}

/-- A token that has expired stays so. -/
theorem expired_of_le {now now' : Int64} (hle : now ≤ now') {row : TokenRow}
    (h : row.active now = false) : row.active now' = false := by
  unfold TokenRow.active at h ⊢
  rw [Bool.and_eq_false_iff] at h ⊢
  refine h.imp_right fun hexpired => ?_
  cases hexpires : row.expiresAt with
  | none =>
      rw [hexpires] at hexpired
      cases hexpired
  | some expiresAt =>
      rw [hexpires] at hexpired
      simp only [decide_eq_false_iff_not, Int64.not_lt] at hexpired ⊢
      exact Int64.le_trans hexpired hle

theorem Leaves.refl (cfg : Config) (r : RepoId) (d : Deployment) : Leaves cfg r d d where
  dir := rfl
  row := rfl
  minted _ h _ := h
  kept _ h _ := Or.inl h
  hooks _ _ := Iff.rfl
  forks _ h := h
  later := Int64.le_refl _

theorem Leaves.trans (h : Leaves cfg r d d') (h' : Leaves cfg r d' d'') : Leaves cfg r d d'' where
  dir := h'.dir.trans h.dir
  row := h'.row.trans h.row
  minted row hrow hr := h.minted row (h'.minted row hrow hr) hr
  kept row hrow hr := by
    rcases h.kept row hrow hr with hhere | hexpired
    · exact h'.kept row hhere hr
    · exact Or.inr (expired_of_le h'.later hexpired)
  hooks row hr := (h'.hooks row hr).trans (h.hooks row hr)
  forks id hid := h.forks id (h'.forks id hid)
  later := Int64.le_trans h.later h'.later

theorem Leaves.heldBy (h : Leaves cfg r d d') (howned : HeldBy r owner d) :
    HeldBy r owner d' where
  isRepo := by
    rw [Disk.isRepo, h.dir]
    exact howned.isRepo
  owner := by
    rw [Repos.getOwner, h.row]
    exact howned.owner

/-- The tokens that open the repo are those that did. -/
theorem Leaves.live_iff (h : Leaves cfg r d d') (hash : String) :
    d'.tokens.Live d'.now hash r.text ↔ d.tokens.Live d'.now hash r.text := by
  constructor
  · rintro ⟨row, hrow, hhash, hrepo, hactive⟩
    exact ⟨row, h.minted row hrow hrepo, hhash, hrepo, hactive⟩
  · rintro ⟨row, hrow, hhash, hrepo, hactive⟩
    rcases h.kept row hrow hrepo with hhere | hexpired
    · exact ⟨row, hhere, hhash, hrepo, hactive⟩
    · rw [hactive] at hexpired
      cases hexpired

theorem Leaves.subscribed_iff (h : Leaves cfg r d d') (hookId : String) :
    d'.webhooks.Subscribed r.text hookId ↔ d.webhooks.Subscribed r.text hookId := by
  constructor
  · rintro ⟨row, hrow, hid, hrepo, hrevoked⟩
    exact ⟨row, (h.hooks row hrepo).mp hrow, hid, hrepo, hrevoked⟩
  · rintro ⟨row, hrow, hid, hrepo, hrevoked⟩
    exact ⟨row, (h.hooks row hrepo).mpr hrow, hid, hrepo, hrevoked⟩

/-! ### The checks -/

/-- An outsider does not pass for the owner. -/
theorem HeldBy.refuses (howned : HeldBy r owner d) {principal : Principal}
    (hout : Outsider owner principal) : enforceOwner d.repos principal r.text ≠ .ok () := by
  intro h
  rcases enforceOwner_eq_ok.mp h with hadmin | ⟨subject, huser, howner⟩
  · exact hout.1 hadmin
  · rw [howned.owner] at howner
    cases howner
    exact hout.2 huser

theorem HeldBy.existingRepo_ne (howned : HeldBy r owner d) {principal : Principal}
    (hout : Outsider owner principal) {id : String} {idTyped : RepoId}
    (h : existingRepo d principal id = .ok idTyped) : id = idTyped.text ∧ idTyped ≠ r := by
  obtain ⟨rfl, -, howner⟩ := existingRepo_eq_ok h
  refine ⟨rfl, ?_⟩
  rintro rfl
  exact howned.refuses hout howner

theorem text_ne {a b : RepoId} (h : a ≠ b) : a.text ≠ b.text := fun heq => h (RepoId.ext heq)

/-- What is made is made elsewhere. -/
theorem HeldBy.free_ne (howned : HeldBy r owner d) {id : RepoId}
    (hfree : ¬ d.disk.pathExists id.text = true) : id ≠ r := by
  rintro rfl
  exact hfree (Disk.pathExists_of_isRepo howned.isRepo)

/-! ### Tables of other repos -/

/-- A token of another repo is minted. -/
theorem Leaves.mint (h : Leaves cfg r d d') (call : Call) {id : RepoId} (hne : id ≠ r)
    (scope : Scope) (ttl : Option UInt64) (subject : Option Subject) :
    Leaves cfg r d { d' with
      tokens := (d'.tokens.mint lib d'.now call.randomToken id scope ttl subject).1 } := by
  refine { h with minted := fun row hrow hr => ?_, kept := fun row hrow hr => ?_ }
  · rcases TokenStore.mint_cases lib d'.tokens d'.now call.randomToken id scope ttl subject with
      ⟨-, hsame⟩ | ⟨-, hmem⟩
    · simp only [hsame] at hrow
      exact h.minted row hrow hr
    · rcases (hmem row).mp hrow with hold | rfl
      · exact h.minted row hold hr
      · exact absurd hr (text_ne hne)
  · refine (h.kept row hrow hr).imp_left fun hhere => ?_
    rcases TokenStore.mint_cases lib d'.tokens d'.now call.randomToken id scope ttl subject with
      ⟨-, hsame⟩ | ⟨-, hmem⟩
    · simp only [hsame]
      exact hhere
    · exact (hmem row).mpr (Or.inl hhere)

/-- Tokens of other repos are revoked. -/
theorem Leaves.setRevoked (d : Deployment) {hit : TokenRow → Bool}
    (hothers : ∀ row ∈ d.tokens.table, row.repoId = r.text → hit row = false) :
    Leaves cfg r d { d with tokens := d.tokens.setRevoked d.now hit } := by
  refine { Leaves.refl cfg r d with minted := fun row hrow hr => ?_, kept := fun row hrow hr => ?_ }
  · obtain ⟨old, hold, hupdated⟩ := TokenStore.mem_setRevoked.mp hrow
    have hrepo : old.repoId = r.text := by
      rw [← hr, ← hupdated]
      split
      · rfl
      · rfl
    rw [hothers old hold hrepo, if_neg Bool.false_ne_true] at hupdated
    exact hupdated ▸ hold
  · refine Or.inl (TokenStore.mem_setRevoked.mpr ⟨row, hrow, ?_⟩)
    rw [hothers row hrow hr, if_neg Bool.false_ne_true]

theorem Leaves.recordOwner (h : Leaves cfg r d d') (now : Int64) {id : RepoId} (hne : id ≠ r)
    (subject : Option Subject) :
    Leaves cfg r d { d' with repos := d'.repos.recordOwner now id subject } := by
  refine { h with row := ?_ }
  have hfind : (d'.repos.recordOwner now id subject).find? r.text = d'.repos.find? r.text := by
    rw [Repos.recordOwner, Table.find?_replace, if_neg (text_ne hne.symm)]
  exact hfind.trans h.row

/-- What `create_repo` and `fork_repo` do behind the directory. -/
theorem Leaves.register (h : Leaves cfg r d d') (call : Call) (principal : Principal) {id : RepoId}
    (hne : id ≠ r) (scope : Scope) (ev : Events.Event) :
    Leaves cfg r d (register lib cfg d' call principal id scope ev).1 := by
  unfold Rest.register
  split
  · exact h
  · rename_i subject _
    have hrecorded := h.recordOwner d'.now hne subject
    have hminted := @Leaves.mint lib _ _ _ _ hrecorded call id hne scope none subject
    dsimp only at hminted ⊢
    generalize d'.tokens.mint lib d'.now call.randomToken id scope none subject = minted at hminted ⊢
    obtain ⟨tokens, outcome⟩ := minted
    cases outcome with
    | error e => exact hrecorded
    | ok token => exact { hminted with }

/-! ### The directories -/

theorem Leaves.makeDir (d : Deployment) {id : RepoId} (hne : id ≠ r) :
    Leaves cfg r d { d with disk := d.disk.makeDir id.text bareRepo } := by
  refine { Leaves.refl cfg r d with dir := ?_, forks := fun id' hid => ?_ }
  · exact Function.update_of_ne (text_ne hne.symm) ..
  · by_cases heq : id' = id.text
    · subst heq
      simp [Disk.alternates, Disk.makeDir, bareRepo] at hid
    · have hsame : (d.disk.makeDir id.text bareRepo).repo id' = d.disk.repo id' :=
        Function.update_of_ne heq ..
      simp only [Disk.alternates, hsame] at hid ⊢
      exact hid

/-- The link of a fork names its source. -/
theorem alternatesOf_inj {a b : RepoId} (h : alternatesOf cfg a = alternatesOf cfg b) : a = b := by
  have hlist := congrArg String.toList h
  simp only [alternatesOf, String.toList_append, List.append_assoc] at hlist
  have hrest := List.append_cancel_left (List.append_cancel_left hlist)
  exact RepoId.ext (String.toList_inj.mp (List.append_cancel_right hrest))

theorem Leaves.fork (d : Deployment) {sourceId id : RepoId} (hsource : sourceId ≠ r) (hne : id ≠ r)
    (hrepo : d.disk.isRepo sourceId.text = true) (hfree : d.disk.pathExists id.text = false) :
    Leaves cfg r d { d with
      disk := (d.disk.addFork cfg.reposDir sourceId.text id.text).copyRefs sourceId.text id.text } := by
  have hmade : d.disk.isRepo id.text = false :=
    Bool.eq_false_iff.mpr fun h => Bool.noConfusion ((Disk.pathExists_of_isRepo h).symm.trans hfree)
  refine { Leaves.refl cfg r d with dir := ?_, forks := fun id' hid => ?_ }
  · have hlink : (d.disk.addFork cfg.reposDir sourceId.text id.text).repo r.text =
        d.disk.repo r.text := by
      unfold Disk.addFork
      split_ifs
      · exact Function.update_of_ne (text_ne hne.symm) ..
      · rfl
    show ((d.disk.addFork cfg.reposDir sourceId.text id.text).copyRefs sourceId.text id.text).repo
      r.text = d.disk.repo r.text
    rw [← hlink, Disk.copyRefs]
    split
    · rfl
    · exact Function.update_of_ne (text_ne hne.symm) ..
  · rw [Disk.alternates_copyRefs, Disk.addFork_eq cfg.reposDir hrepo hfree,
      Disk.alternates_writeAlternates] at hid
    · split_ifs at hid with heq
      · exact absurd (alternatesOf_inj (Option.some.inj hid)) hsource
      · rwa [Disk.alternates_ensureDir] at hid
    · rw [Disk.isRepo_ensureDir hfree, decide_eq_true rfl, Bool.true_or]

theorem Leaves.removeDir (d : Deployment) {id : RepoId} (hne : id ≠ r) :
    Leaves cfg r d { d with disk := d.disk.removeDir id.text, repos := d.repos.remove id } := by
  refine { Leaves.refl cfg r d with dir := ?_, row := ?_, forks := fun id' hid => ?_ }
  · exact Function.update_of_ne (text_ne hne.symm) ..
  · show (d.repos.remove id).find? r.text = d.repos.find? r.text
    rw [Repos.remove, Table.find?_delete _ fun _ => beq_iff_eq, if_neg (text_ne hne.symm)]
  · rw [Disk.alternates_removeDir] at hid
    split_ifs at hid
    exact hid

/-! ### The handlers -/

/-- A loop of checks that all succeed. -/
theorem forM_eq_ok {α : Type} {check : α → Result Unit} {l : List α}
    (h : l.forM check = .ok ()) : ∀ x ∈ l, check x = .ok () := by
  induction l with
  | nil => exact nofun
  | cons first l ih =>
      obtain ⟨_, hfirst, hrest⟩ := Result.bind_eq_ok.mp h
      intro x hx
      rcases List.mem_cons.mp hx with rfl | hx
      · exact hfirst
      · exact ih hrest x hx

/-- A repo that someone else may delete is another one. -/
theorem HeldBy.not_mem_plan (howned : HeldBy r owner d) {call : Call}
    (hforeign : ∀ principal, call.caller = .ok principal → Outsider owner principal)
    {cache : String → Option String} {id : String} {force cascade : Option Bool}
    {order : List String} (h : deletePlan d call cache id force cascade = .ok order) :
    r.text ∉ order := by
  unfold deletePlan at h
  obtain ⟨principal, hcaller, h⟩ := Result.bind_eq_ok.mp h
  have hrefuses := howned.refuses (hforeign principal hcaller)
  obtain ⟨-, -, h⟩ := Result.bind_eq_ok.mp h
  obtain ⟨_, howner, h⟩ := Result.bind_eq_ok.mp h
  obtain ⟨idTyped, hid, h⟩ := Result.bind_eq_ok.mp h
  obtain rfl := RepoId.tryFrom_eq_ok.mp hid
  -- the repo itself is checked before all
  have hself : r.text ≠ idTyped.text := fun heq => hrefuses (heq ▸ howner)
  have hrest : ∀ dep : String, (if dep = idTyped.text then (.ok () : Result Unit)
      else enforceOwner d.repos principal dep) = .ok () → dep ≠ r.text := by
    rintro dep hdep rfl
    rw [if_neg hself] at hdep
    exact hrefuses hdep
  dsimp only at h
  by_cases hboth : (force.getD false && cascade.getD false) = true
  · rw [if_pos hboth] at h
    cases h
  rw [if_neg hboth] at h
  by_cases hcascade : cascade.getD false = true
  · rw [if_pos hcascade] at h
    obtain ⟨found, -, h⟩ := Result.bind_eq_ok.mp h
    obtain ⟨_, hall, h⟩ := Result.bind_eq_ok.mp h
    cases h
    exact fun hmem => hrest r.text (forM_eq_ok hall r.text hmem) rfl
  · rw [if_neg hcascade] at h
    split at h
    · cases h
    · split_ifs at h
      cases h
      rw [List.mem_singleton]
      exact hself

theorem removeRepos_leaves {order : List String} (d : Deployment) (hnot : r.text ∉ order) :
    Leaves cfg r d (removeRepos d order).1 := by
  induction order generalizing d with
  | nil => exact Leaves.refl cfg r d
  | cons dep order ih =>
      rw [List.mem_cons, not_or] at hnot
      obtain ⟨hne, hrest⟩ := hnot
      unfold removeRepos
      cases htyped : RepoId.tryFrom dep with
      | error e => exact Leaves.refl cfg r d
      | ok depTyped =>
          obtain rfl := RepoId.tryFrom_eq_ok.mp htyped
          simp only [FsStorage.delete]
          by_cases hrepo : d.disk.isRepo depTyped.text = true
          · rw [if_pos hrepo]
            have hother : depTyped ≠ r := by
              rintro rfl
              exact hne rfl
            exact (Leaves.removeDir d hother).trans (ih _ hrest)
          · rw [if_neg hrepo]
            exact Leaves.refl cfg r d

section Handlers

variable {call : Call} (howned : HeldBy r owner d)
  (hforeign : ∀ principal, call.caller = .ok principal → Outsider owner principal)

include howned

theorem createRepo_leaves (id : Option RepoId) :
    Leaves cfg r d (createRepo lib cfg d call id).1 := by
  unfold createRepo
  split
  · exact Leaves.refl cfg r d
  · rename_i principal _
    simp only [FsStorage.create]
    by_cases hpath : d.disk.pathExists (id.getD call.newRepoId).text = true
    · rw [if_pos hpath]
      exact Leaves.refl cfg r d
    · rw [if_neg hpath]
      have hne := howned.free_ne hpath
      exact (Leaves.makeDir d hne).register call principal hne _ _

include hforeign

theorem tokenChecks_ne {id : String} {idTyped : RepoId} {subject : Option Subject}
    (h : tokenChecks d call id = .ok (idTyped, subject)) : id = idTyped.text ∧ idTyped ≠ r := by
  unfold tokenChecks at h
  obtain ⟨principal, hcaller, h⟩ := Result.bind_eq_ok.mp h
  obtain ⟨-, -, h⟩ := Result.bind_eq_ok.mp h
  obtain ⟨typed, hexisting, h⟩ := Result.bind_eq_ok.mp h
  obtain ⟨subject', -, h⟩ := Result.bind_eq_ok.mp h
  cases h
  exact howned.existingRepo_ne (hforeign principal hcaller) hexisting

theorem forkRepo_leaves (sourceId : String) (id : Option RepoId) (readOnly : Bool) :
    Leaves cfg r d (forkRepo lib cfg d call sourceId id readOnly).1 := by
  unfold forkRepo
  cases hchecks : forkChecks cfg d call sourceId with
  | error e => exact Leaves.refl cfg r d
  | ok checked =>
      obtain ⟨principal, sourceIdTyped⟩ := checked
      have hsource : sourceIdTyped ≠ r := by
        unfold forkChecks at hchecks
        obtain ⟨caller, hcaller, hchecks⟩ := Result.bind_eq_ok.mp hchecks
        obtain ⟨-, -, hchecks⟩ := Result.bind_eq_ok.mp hchecks
        obtain ⟨typed, hexisting, hchecks⟩ := Result.bind_eq_ok.mp hchecks
        obtain ⟨-, -, hchecks⟩ := Result.bind_eq_ok.mp hchecks
        cases hchecks
        exact (howned.existingRepo_ne (hforeign principal hcaller) hexisting).2
      obtain ⟨-, hrepo⟩ := forkChecks_eq_ok hchecks
      simp only [FsStorage.fork, hrepo, Bool.not_true, Bool.false_eq_true, if_false]
      by_cases hpath : d.disk.pathExists (id.getD call.newRepoId).text = true
      · rw [if_pos hpath]
        exact Leaves.refl cfg r d
      · rw [if_neg hpath]
        have hne := howned.free_ne hpath
        exact (Leaves.fork d hsource hne hrepo (Bool.eq_false_iff.mpr hpath)).register call
          principal hne _ _

theorem deleteRepo_leaves (cache : String → Option String) (id : String)
    (force cascade : Option Bool) :
    Leaves cfg r d (deleteRepo d call cache id force cascade).1 := by
  unfold deleteRepo
  cases hplan : deletePlan d call cache id force cascade with
  | error e => exact Leaves.refl cfg r d
  | ok order =>
      have hremoved := @removeRepos_leaves cfg r order d (howned.not_mem_plan hforeign hplan)
      dsimp only
      generalize removeRepos d order = removed at hremoved ⊢
      obtain ⟨d', outcome⟩ := removed
      cases outcome <;> exact hremoved

theorem mintToken_leaves (id : String) (scope : Scope) (ttl : Option UInt64) :
    Leaves cfg r d (mintToken lib d call id scope ttl).1 := by
  unfold mintToken
  cases hchecks : tokenChecks d call id with
  | error e => exact Leaves.refl cfg r d
  | ok checked =>
      exact (Leaves.refl cfg r d).mint call (tokenChecks_ne howned hforeign hchecks).2 scope ttl _

theorem rotateTokens_leaves (id : String) (scope : Option Scope) (ttl : Option UInt64) :
    Leaves cfg r d (rotateTokens lib d call id scope ttl).1 := by
  unfold rotateTokens
  cases hchecks : tokenChecks d call id with
  | error e => exact Leaves.refl cfg r d
  | ok checked =>
      obtain ⟨idTyped, subject⟩ := checked
      have hne := (tokenChecks_ne howned hforeign hchecks).2
      have hrevoked : Leaves cfg r d { d with
          tokens := d.tokens.setRevoked d.now fun row =>
            row.repoId == idTyped.text && row.active d.now } := by
        refine Leaves.setRevoked d fun row _ hrow => ?_
        rw [hrow, beq_eq_false_iff_ne.mpr (text_ne hne.symm), Bool.false_and]
      have hminted := @Leaves.mint lib _ _ _ _ hrevoked call idTyped hne (scope.getD .write) ttl
        subject
      dsimp only [TokenStore.revokeAllForRepo] at hminted ⊢
      generalize TokenStore.mint lib _ d.now call.randomToken idTyped (scope.getD .write) ttl
        subject = minted at hminted ⊢
      obtain ⟨tokens, outcome⟩ := minted
      cases outcome <;> exact hminted

/-- Of the tokens of a repo only its owner and the admin revoke one. -/
theorem revokeToken_leaves (token : Token) : Leaves cfg r d (revokeToken lib d call token).1 := by
  unfold revokeToken
  cases hchecks : revokeChecks lib d call token with
  | error e => exact Leaves.refl cfg r d
  | ok _ =>
      refine Leaves.setRevoked d fun row hrow hrepo => ?_
      unfold revokeChecks at hchecks
      obtain ⟨principal, hcaller, hchecks⟩ := Result.bind_eq_ok.mp hchecks
      obtain ⟨-, -, hchecks⟩ := Result.bind_eq_ok.mp hchecks
      have hout := hforeign principal hcaller
      rw [if_neg hout.1] at hchecks
      by_contra hhit
      rw [Bool.not_eq_false, Bool.and_eq_true, beq_iff_eq, Option.isNone_iff_eq_none] at hhit
      obtain ⟨hhash, hrevoked⟩ := hhit
      -- the row of this hash is the one the lookup finds, if it finds any
      cases hlookup : d.tokens.lookup lib d.now token with
      | error e =>
          rw [hlookup] at hchecks
          cases hchecks
      | ok found =>
          rw [hlookup] at hchecks
          cases found with
          | none => cases hchecks
          | some record =>
              obtain ⟨row', hrow', hhash', -, hrepo', -⟩ := TokenStore.lookup_eq_some_iff.mp hlookup
              obtain rfl : row' = row := Table.ext_key hrow' hrow (hhash'.trans hhash.symm)
              have hsame : record.repoId = r := RepoId.ext (hrepo'.symm.trans hrepo)
              simp only [hsame] at hchecks
              exact howned.refuses hout hchecks

theorem webhookChecks_ne {id url : String} {idTyped : RepoId}
    (h : webhookChecks cfg d call id url = .ok idTyped) : id = idTyped.text ∧ idTyped ≠ r := by
  unfold webhookChecks at h
  obtain ⟨principal, hcaller, h⟩ := Result.bind_eq_ok.mp h
  obtain ⟨-, -, h⟩ := Result.bind_eq_ok.mp h
  obtain ⟨typed, hexisting, h⟩ := Result.bind_eq_ok.mp h
  obtain ⟨-, -, h⟩ := Result.bind_eq_ok.mp h
  cases h
  exact howned.existingRepo_ne (hforeign principal hcaller) hexisting

theorem createWebhook_leaves (id url : String) (events : List Events.EventKind) :
    Leaves cfg r d (createWebhook cfg d call id url events).1 := by
  unfold createWebhook
  cases hchecks : webhookChecks cfg d call id url with
  | error e => exact Leaves.refl cfg r d
  | ok idTyped =>
      have hne := (webhookChecks_ne howned hforeign hchecks).2
      refine { Leaves.refl cfg r d with hooks := fun row hrow => ?_ }
      dsimp only
      rcases Registry.add_cases d.webhooks d.now call.uuid ⟨"", idTyped, url, events⟩ rfl with
        ⟨-, hsame⟩ | ⟨-, -, hmem⟩
      · rw [hsame]
      · rw [hmem]
        refine or_iff_left ?_
        rintro rfl
        exact text_ne hne hrow

theorem deleteWebhook_leaves (id hookId : String) :
    Leaves cfg r d (deleteWebhook d call id hookId).1 := by
  unfold deleteWebhook
  cases hchecks : unsubscribeChecks d call id with
  | error e => exact Leaves.refl cfg r d
  | ok idTyped =>
      have hne : idTyped ≠ r := by
        unfold unsubscribeChecks at hchecks
        obtain ⟨principal, hcaller, hchecks⟩ := Result.bind_eq_ok.mp hchecks
        exact (howned.existingRepo_ne (hforeign principal hcaller) hchecks).2
      have hmiss : ∀ row : WebhookRow, row.repoId = r.text →
          (row.id == hookId && row.activeFor idTyped) = false := by
        intro row hrow
        rw [WebhookRow.activeFor, hrow, beq_eq_false_iff_ne.mpr (text_ne hne.symm), Bool.false_and,
          Bool.and_false]
      refine { Leaves.refl cfg r d with hooks := fun row hrow => ?_ }
      dsimp only [Registry.remove]
      rw [Table.mem_update (WebhookRow.revoked_id d.now)]
      constructor
      · rintro ⟨old, hold, hupdated⟩
        have hrepo : old.repoId = r.text := by
          rw [← hrow, ← hupdated]
          split
          · rfl
          · rfl
        rw [hmiss old hrepo, if_neg Bool.false_ne_true] at hupdated
        exact hupdated ▸ hold
      · intro hhere
        exact ⟨row, hhere, by rw [hmiss row hrow, if_neg Bool.false_ne_true]⟩

end Handlers

/-! ### Requests and runs -/

/-- The state behind a request. -/
def served (lib : Library) (cfg : Config) (d : Deployment) (req : Request) : Deployment :=
  (serve lib cfg d req).1

theorem saturatingSub_le {grace : UInt64} (hgrace : grace.toNat < 2 ^ 63) (now : Int64) :
    saturatingSub now grace.toInt64 ≤ now := by
  have hcast := toInt_toInt64 grace
  rw [if_pos hgrace] at hcast
  have hlow := now.le_toInt
  have hhigh := now.toInt_lt
  have hmin : Int64.minValue.toInt = -2 ^ 63 := Int64.toInt_minValue
  have hmax : Int64.maxValue.toInt = 2 ^ 63 - 1 := Int64.toInt_maxValue
  rw [Int64.le_iff_toInt_le, saturatingSub, hcast, hmin, hmax]
  split_ifs
  · rw [hmin]
    omega
  · omega
  · rw [Int64.toInt_ofInt_of_le (by omega) (by omega)]
    omega

/-- The hourly sweep takes no token that is still live. -/
theorem pruneTokens_leaves {grace : UInt64} (hgrace : grace.toNat < 2 ^ 63) :
    Leaves cfg r d { d with tokens := (d.tokens.prune d.now grace).1 } := by
  refine { Leaves.refl cfg r d with minted := fun row hrow _ => ?_, kept := fun row hrow _ => ?_ }
  · exact (Table.mem_delete.mp hrow).1
  · by_cases hactive : row.active d.now = false
    · exact Or.inr hactive
    · rw [Bool.not_eq_false, TokenRow.active, Bool.and_eq_true, Option.isNone_iff_eq_none] at hactive
      obtain ⟨hrevoked, hexpires⟩ := hactive
      refine Or.inl (Table.mem_delete.mpr ⟨hrow, ?_⟩)
      rw [hrevoked, Option.isSome_none, Bool.false_or]
      cases hat : row.expiresAt with
      | none => rfl
      | some expiresAt =>
          rw [hat] at hexpires
          have hle := saturatingSub_le hgrace d.now
          exact decide_eq_false fun hold => Int64.not_le.mpr (of_decide_eq_true hexpires)
            (Int64.le_trans hold hle)

/-- A grace period that the cast to `i64` keeps, if the request is a sweep. -/
def Request.GraceFits : Request → Prop
  | .pruneTokens grace => grace.toNat < 2 ^ 63
  | _ => True

/-- **The step lemma**, for every request. -/
theorem serve_leaves (howned : HeldBy r owner d) {req : Request} (hforeign : req.Foreign owner)
    (hgrace : req.GraceFits) : Leaves cfg r d (served lib cfg d req) := by
  unfold served
  cases req with
  | createRepo call id => exact createRepo_leaves howned id
  | forkRepo call sourceId id readOnly =>
      exact forkRepo_leaves howned (hforeign call rfl) sourceId id readOnly
  | deleteRepo call cache id force cascade =>
      exact deleteRepo_leaves howned (hforeign call rfl) cache id force cascade
  | mintToken call id scope ttl => exact mintToken_leaves howned (hforeign call rfl) id scope ttl
  | rotateTokens call id scope ttl =>
      exact rotateTokens_leaves howned (hforeign call rfl) id scope ttl
  | revokeToken call token => exact revokeToken_leaves howned (hforeign call rfl) token
  | createWebhook call id url events =>
      exact createWebhook_leaves howned (hforeign call rfl) id url events
  | deleteWebhook call id hookId => exact deleteWebhook_leaves howned (hforeign call rfl) id hookId
  | pruneTokens grace => exact pruneTokens_leaves hgrace
  | clock systemTime =>
      unfold serve
      dsimp only
      split
      · rename_i hle
        exact { Leaves.refl cfg r d with
          later := hle
          kept := fun _ hrow _ => Or.inl hrow }
      · exact Leaves.refl cfg r d

/-- What a client is given lets it at other repos. -/
def Reply.Elsewhere (r : RepoId) (reply : Reply) : Prop :=
  (∀ token, reply ≠ .token r.text token) ∧ ∀ hookId, reply ≠ .hook r.text hookId

theorem plainReply_elsewhere {α : Type} (result : Result α) : (plainReply result).Elsewhere r := by
  cases result <;> exact ⟨nofun, nofun⟩

theorem tokenReply_elsewhere {id : String} {result : Result Token}
    (h : ∀ token, result = .ok token → id ≠ r.text) : (tokenReply id result).Elsewhere r := by
  cases result with
  | error e => exact ⟨nofun, nofun⟩
  | ok token =>
      refine ⟨fun other heq => ?_, nofun⟩
      cases heq
      exact h token rfl rfl

theorem hookReply_elsewhere {id : String} {result : Result String}
    (h : ∀ hookId, result = .ok hookId → id ≠ r.text) : (hookReply id result).Elsewhere r := by
  cases result with
  | error e => exact ⟨nofun, nofun⟩
  | ok hookId =>
      refine ⟨nofun, fun other heq => ?_⟩
      cases heq
      exact h hookId rfl rfl

theorem handleReply_elsewhere {result : Result RepoHandle}
    (h : ∀ handle, result = .ok handle → handle.id ≠ r.text) :
    (handleReply result).Elsewhere r := by
  cases result with
  | error e => exact ⟨nofun, nofun⟩
  | ok handle =>
      refine ⟨fun other heq => ?_, nofun⟩
      obtain ⟨hid, -⟩ := Reply.token.inj heq
      exact h handle rfl hid

theorem register_handle {d : Deployment} {call : Call} {principal : Principal} {id : RepoId}
    {scope : Scope} {ev : Events.Event} {handle : RepoHandle}
    (h : (register lib cfg d call principal id scope ev).2 = .ok handle) :
    handle.id = id.text := by
  unfold register at h
  cases hsubject : typedSubject principal with
  | error e =>
      rw [hsubject] at h
      cases h
  | ok subject =>
      rw [hsubject] at h
      dsimp only at h
      split at h
      · cases h
      · cases h
        rfl

theorem createRepo_handle (howned : HeldBy r owner d) {call : Call} {id : Option RepoId}
    {handle : RepoHandle} (h : (createRepo lib cfg d call id).2 = .ok handle) :
    handle.id ≠ r.text := by
  unfold createRepo at h
  cases hchecks : createChecks cfg d call with
  | error e =>
      rw [hchecks] at h
      cases h
  | ok principal =>
      simp only [hchecks, FsStorage.create] at h
      by_cases hpath : d.disk.pathExists (id.getD call.newRepoId).text = true
      · rw [if_pos hpath] at h
        cases h
      · rw [if_neg hpath] at h
        rw [register_handle h]
        exact text_ne (howned.free_ne hpath)

theorem forkRepo_handle (howned : HeldBy r owner d) {call : Call} {sourceId : String}
    {id : Option RepoId} {readOnly : Bool} {handle : RepoHandle}
    (h : (forkRepo lib cfg d call sourceId id readOnly).2 = .ok handle) :
    handle.id ≠ r.text := by
  unfold forkRepo at h
  cases hchecks : forkChecks cfg d call sourceId with
  | error e =>
      rw [hchecks] at h
      cases h
  | ok checked =>
      obtain ⟨principal, sourceIdTyped⟩ := checked
      obtain ⟨-, hrepo⟩ := forkChecks_eq_ok hchecks
      simp only [hchecks, FsStorage.fork, hrepo, Bool.not_true, Bool.false_eq_true, if_false] at h
      by_cases hpath : d.disk.pathExists (id.getD call.newRepoId).text = true
      · rw [if_pos hpath] at h
        cases h
      · rw [if_neg hpath] at h
        rw [register_handle h]
        exact text_ne (howned.free_ne hpath)

/-- **Outsiders are given nothing for the repo**, by any request. -/
theorem serve_elsewhere (howned : HeldBy r owner d) {req : Request}
    (hforeign : req.Foreign owner) : (serve lib cfg d req).2.Elsewhere r := by
  cases req with
  | createRepo call id => exact handleReply_elsewhere fun _ hok => createRepo_handle howned hok
  | forkRepo call sourceId id readOnly =>
      exact handleReply_elsewhere fun _ hok => forkRepo_handle howned hok
  | deleteRepo call cache id force cascade => exact plainReply_elsewhere _
  | mintToken call id scope ttl =>
      refine tokenReply_elsewhere fun token hok => ?_
      split at hok
      · cases hok
      · rename_i idTyped subject hchecks
        obtain ⟨rfl, hne⟩ := tokenChecks_ne howned (hforeign call rfl) hchecks
        exact text_ne hne
  | rotateTokens call id scope ttl =>
      refine tokenReply_elsewhere fun token hok => ?_
      split at hok
      · cases hok
      · rename_i idTyped subject hchecks
        obtain ⟨rfl, hne⟩ := tokenChecks_ne howned (hforeign call rfl) hchecks
        exact text_ne hne
  | revokeToken call token => exact plainReply_elsewhere _
  | createWebhook call id url events =>
      refine hookReply_elsewhere fun hookId hok => ?_
      split at hok
      · cases hok
      · rename_i idTyped hchecks
        obtain ⟨rfl, hne⟩ := webhookChecks_ne howned (hforeign call rfl) hchecks
        exact text_ne hne
  | deleteWebhook call id hookId => exact plainReply_elsewhere _
  | pruneTokens grace => exact ⟨nofun, nofun⟩
  | clock systemTime => exact ⟨nofun, nofun⟩

/-- The run lemma: a run of foreign requests leaves the repo alone, and each of its replies
is about something else. -/
theorem foldl_served_leaves {reqs : List Request} (howned : HeldBy r owner d)
    (hforeign : ∀ req ∈ reqs, req.Foreign owner) (hgrace : ∀ req ∈ reqs, req.GraceFits) :
    Leaves cfg r d (reqs.foldl (served lib cfg) d) ∧
      EveryStep (served lib cfg) (fun d req => (serve lib cfg d req).2.Elsewhere r) d reqs := by
  induction reqs generalizing d with
  | nil => exact ⟨Leaves.refl cfg r d, trivial⟩
  | cons req reqs ih =>
      have hreq := hforeign req List.mem_cons_self
      have hstep : Leaves cfg r d (served lib cfg d req) :=
        serve_leaves howned hreq (hgrace req List.mem_cons_self)
      obtain ⟨hrest, hreplies⟩ := ih (hstep.heldBy howned)
        (fun req' h => hforeign req' (List.mem_cons_of_mem req h))
        (fun req' h => hgrace req' (List.mem_cons_of_mem req h))
      exact ⟨hstep.trans hrest, serve_elsewhere howned hreq, hreplies⟩

/-- **Tenants are isolated.** Whatever other users ask for, in any order: the repo keeps its
directory as it is and its owner; at the end its tokens are those that have not expired by
then, and its subscriptions are what they were; there is no new fork of it, and nobody was
given a token or a subscription for it. -/
theorem tenants_isolated (lib : Library) (cfg : Config) (d : Deployment) (r : RepoId)
    (owner : Subject) (howned : HeldBy r owner d) (reqs : List Request)
    (hforeign : ∀ req ∈ reqs, req.Foreign owner) (hgrace : ∀ req ∈ reqs, req.GraceFits) :
    let d' := reqs.foldl (served lib cfg) d
    d'.disk.repo r.text = d.disk.repo r.text ∧
      d'.repos.getOwner r = some (some owner) ∧
      (∀ hash, d'.tokens.Live d'.now hash r.text ↔ d.tokens.Live d'.now hash r.text) ∧
      (∀ hookId, d'.webhooks.Subscribed r.text hookId ↔ d.webhooks.Subscribed r.text hookId) ∧
      (∀ id, d'.disk.alternates id = some (alternatesOf cfg r) →
        d.disk.alternates id = some (alternatesOf cfg r)) ∧
      EveryStep (served lib cfg) (fun d req => (serve lib cfg d req).2.Elsewhere r) d reqs := by
  obtain ⟨hleaves, hreplies⟩ := @foldl_served_leaves lib cfg r owner d reqs howned hforeign hgrace
  exact ⟨hleaves.dir, (hleaves.heldBy howned).owner, hleaves.live_iff, hleaves.subscribed_iff,
    hleaves.forks, hreplies⟩

/-- Alice has made the repo `demo`. -/
def aliceMade : Deployment :=
  served sampleLibrary sampleConfig emptyDeployment
    (.createRepo (sampleCall "alice" aliceToken) (some demoRepo))

/-- Bob asks for it in every way. -/
def bobTries : List Request :=
  [.createRepo (sampleCall "bob" bobToken) (some demoRepo),
    .forkRepo (sampleCall "bob" bobToken) "demo" none false,
    .deleteRepo (sampleCall "bob" bobToken) (fun _ => none) "demo" (some true) none,
    .rotateTokens (sampleCall "bob" bobToken) "demo" none none,
    .revokeToken (sampleCall "bob" bobToken) aliceToken,
    .createWebhook (sampleCall "bob" bobToken) "demo" "https://bob.example/hook" []]

theorem tenants_isolated_demo :
    let d' := bobTries.foldl (served sampleLibrary sampleConfig) aliceMade
    d'.repos.getOwner demoRepo = some (some ⟨"alice", rfl⟩) ∧
      d'.tokens.Live d'.now (sampleLibrary.sha256Hex aliceToken.text) "demo" := by
  have howned : HeldBy demoRepo ⟨"alice", rfl⟩ aliceMade := ⟨by decide, by decide⟩
  have hbob : ∀ call, call = sampleCall "bob" bobToken → ∀ principal,
      call.caller = .ok principal → Outsider ⟨"alice", rfl⟩ principal := by
    rintro call rfl principal hcaller
    cases hcaller
    exact ⟨nofun, by decide⟩
  have hforeign : ∀ req ∈ bobTries, req.Foreign ⟨"alice", rfl⟩ := by
    intro req hreq call hcall
    simp only [bobTries, List.mem_cons, List.not_mem_nil, or_false] at hreq
    rcases hreq with rfl | rfl | rfl | rfl | rfl | rfl <;>
      exact hbob call (Option.some.inj hcall).symm
  have hgrace : ∀ req ∈ bobTries, req.GraceFits := by
    intro req hreq
    simp only [bobTries, List.mem_cons, List.not_mem_nil, or_false] at hreq
    rcases hreq with rfl | rfl | rfl | rfl | rfl | rfl <;> trivial
  obtain ⟨-, hkept, hlive, -⟩ := tenants_isolated sampleLibrary sampleConfig aliceMade demoRepo
    ⟨"alice", rfl⟩ howned bobTries hforeign hgrace
  exact ⟨hkept, (hlive _).mpr (by decide)⟩

end Rest
end Artifacts
