import Artifacts.Auth

/-!
# Who owns what

`Repos` is the table `repos` of `SqliteOwnershipStore`.  A row without an owner is
a repo the admin created; no row at all is a repo that only the admin may touch.

`countByOwner` counts rows, whatever there is on disk.  The quota is checked before a repo is made;
what calls at the same time make of that is in `Quota`.
-/

namespace Artifacts
namespace Ownership

open Auth Foundation

structure RepoRow where
  id : String
  ownerSubject : Option String
  createdAt : Int64
  deriving DecidableEq, Repr

/-- The table `repos`. -/
abbrev Repos := Table RepoRow.id

namespace Repos

/-- `record_owner`, an `INSERT OR REPLACE`: a row that is there under the id is lost, whoever owned
it. -/
def recordOwner (repos : Repos) (now : Int64) (repoId : RepoId) (owner : Option Subject) : Repos :=
  repos.replace ⟨repoId.text, owner.map Subject.text, now⟩

/-- `get_owner`: a malformed owner counts as the admin. -/
def getOwner (repos : Repos) (repoId : RepoId) : Option (Option Subject) :=
  (repos.find? repoId.text).map fun row =>
    row.ownerSubject.bind fun s => (Subject.tryFrom s).toOption

/-- `OwnershipStore::delete`. It takes the row of the id, whoever owns it by then. -/
def remove (repos : Repos) (repoId : RepoId) : Repos :=
  repos.delete fun row => row.id == repoId.text

/-- `count_by_owner`: the rows in the name of the user, whether or not the repos are on disk. -/
def countByOwner (repos : Repos) (subject : Subject) : Nat :=
  (repos.select fun row => row.ownerSubject == some subject.text).length

end Repos

/-- `check_repo_quota`. The admin has no quota; the count is read now, and nothing keeps it until
the row of the new repo is there. -/
def checkRepoQuota (repos : Repos) (principal : Principal) (limit : Nat) : Result Unit :=
  if principal = .admin then
    .ok ()
  else
    match principal.subject with
    | none => .error (.quotaExceeded "<no-subject>" limit)
    | some subjectStr => do
        let subject ← Subject.tryFrom subjectStr
        if limit ≤ repos.countByOwner subject then
          .error (.quotaExceeded subject.text limit)
        else
          .ok ()

/-- The comparison of `enforce_owner`. -/
def matchOwner (caller : String) : Option (Option Subject) → Result Unit
  | some (some owner) =>
      if owner.text = caller then .ok () else .error (.forbidden "not the repo owner")
  | some none | none => .error (.forbidden "repo is admin-owned or unregistered")

/-- `enforce_owner`. The admin may do anything, and a repo without an owner is nobody else's. -/
def enforceOwner (repos : Repos) (principal : Principal) (repoId : String) : Result Unit :=
  if principal = .admin then
    .ok ()
  else
    match principal.subject with
    | none => .error (.forbidden "non-admin principal has no subject")
    | some caller => do
        let repoIdTyped ← RepoId.tryFrom repoId
        matchOwner caller (repos.getOwner repoIdTyped)

theorem matchOwner_eq_ok {caller : String} {owner : Option (Option Subject)} :
    matchOwner caller owner = .ok () ↔ ∃ s : Subject, owner = some (some s) ∧ s.text = caller := by
  constructor
  · intro h
    match owner with
    | none => cases h
    | some none => cases h
    | some (some s) =>
        unfold matchOwner at h
        dsimp only at h
        split_ifs at h with hcaller
        exact ⟨s, rfl, hcaller⟩
  · intro h
    obtain ⟨s, rfl, hcaller⟩ := h
    exact if_pos hcaller

/-- **Whom a repo lets in**: the admin, and the owner its row names. -/
theorem enforceOwner_eq_ok {repos : Repos} {principal : Principal} {repoId : RepoId} :
    enforceOwner repos principal repoId.text = .ok () ↔
      principal = .admin ∨
        ∃ owner : Subject, principal = .user owner.text ∧
          repos.getOwner repoId = some (some owner) := by
  cases principal with
  | admin => simp [enforceOwner]
  | user caller =>
      constructor
      · intro h
        right
        obtain ⟨typed, htyped, hmatch⟩ := Result.bind_eq_ok.mp h
        rw [RepoId.tryFrom_text] at htyped
        cases htyped
        obtain ⟨owner, howner, hcaller⟩ := matchOwner_eq_ok.mp hmatch
        exact ⟨owner, by rw [hcaller], howner⟩
      · intro h
        obtain ⟨owner, hcaller, howner⟩ := h.resolve_left nofun
        cases hcaller
        exact Result.bind_eq_ok.mpr
          ⟨repoId, RepoId.tryFrom_text repoId, matchOwner_eq_ok.mpr ⟨owner, howner, rfl⟩⟩

end Ownership
end Artifacts
