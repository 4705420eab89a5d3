import Artifacts.Rest.Server
import Artifacts.Storage.Alternates

/-!
# Repo lifecycle handlers

`createRepo`, `forkRepo` and `deleteRepo`.  Each begins with checks that only read;
the first store it changes is the repos directory.

The rate limit, the authorisation and the quota come first, in the order of the source.  Events are
put into the queue at the end, and only where the source does it.
-/

namespace Artifacts
namespace Rest

open Auth Events Ownership Storage Tokens

variable (lib : Library) (cfg : Config)

/-! ### Creating -/

/-- The tail that `create_repo` and `fork_repo` share: record the owner, mint the
first token, announce the repo. -/
def register (d : Deployment) (call : Call) (principal : Principal) (id : RepoId) (scope : Scope)
    (ev : Event) : Deployment × Result RepoHandle :=
  match typedSubject principal with
  | .error e => (d, .error e)
  | .ok owner =>
      let recorded := { d with repos := d.repos.recordOwner d.now id owner }
      match d.tokens.mint lib d.now call.randomToken id scope none owner with
      | (_, .error e) => (recorded, .error e)
      | (tokens, .ok token) =>
          ({ recorded with
              tokens := tokens
              outbox := d.outbox ++ d.webhooks.publishEvent d.now ev },
            .ok ⟨id.text, remoteUrl cfg id.text token, token⟩)

/-- What `create_repo` checks before it touches the disk. -/
def createChecks (d : Deployment) (call : Call) : Result Principal := do
  let principal ← call.caller
  call.rate
  checkRepoQuota d.repos principal cfg.maxReposPerUser
  return principal

/-- `create_repo`, as one step: the checks, the directory, the row and the token. In which state a
failure leaves the deployment is part of it. -/
def createRepo (d : Deployment) (call : Call) (id : Option RepoId) :
    Deployment × Result RepoHandle :=
  match createChecks cfg d call with
  | .error e => (d, .error e)
  | .ok principal =>
      let idTyped := id.getD call.newRepoId
      match FsStorage.create d.disk idTyped with
      | (_, .error e) => (d, .error e)
      | (disk, .ok ()) =>
          register lib cfg { d with disk := disk } call principal idTyped .write
            (.status idTyped.text "unknown" "idle" call.nowMs)

/-- What `fork_repo` checks before it touches the disk. -/
def forkChecks (d : Deployment) (call : Call) (sourceId : String) :
    Result (Principal × RepoId) := do
  let principal ← call.caller
  call.rate
  let sourceIdTyped ← existingRepo d principal sourceId
  checkRepoQuota d.repos principal cfg.maxReposPerUser
  return (principal, sourceIdTyped)

/-- `fork_repo`, as one step. A fork that is read only gives its maker a token to read, and the row
is the maker's all the same. -/
def forkRepo (d : Deployment) (call : Call) (sourceId : String) (id : Option RepoId)
    (readOnly : Bool) : Deployment × Result RepoHandle :=
  match forkChecks cfg d call sourceId with
  | .error e => (d, .error e)
  | .ok (principal, sourceIdTyped) =>
      let forkIdTyped := id.getD call.newRepoId
      match FsStorage.fork cfg.reposDir d.disk sourceIdTyped forkIdTyped with
      | (_, .error e) => (d, .error e)
      | (disk, .ok ()) =>
          register lib cfg { d with disk := disk } call principal forkIdTyped
            (if readOnly then .read else .write)
            (.fork sourceId forkIdTyped.text call.nowMs)

theorem forkChecks_eq_ok {cfg : Config} {d : Deployment} {call : Call} {sourceId : String}
    {principal : Principal} {sourceIdTyped : RepoId}
    (h : forkChecks cfg d call sourceId = .ok (principal, sourceIdTyped)) :
    sourceId = sourceIdTyped.text ∧ d.disk.isRepo sourceIdTyped.text = true := by
  unfold forkChecks at h
  obtain ⟨caller, -, h⟩ := Result.bind_eq_ok.mp h
  obtain ⟨-, -, h⟩ := Result.bind_eq_ok.mp h
  obtain ⟨typed, hexisting, h⟩ := Result.bind_eq_ok.mp h
  obtain ⟨-, -, h⟩ := Result.bind_eq_ok.mp h
  cases h
  obtain ⟨hid, hrepo, -⟩ := existingRepo_eq_ok hexisting
  exact ⟨hid, hrepo⟩

/-! ### Deleting -/

/-- `if seen.insert(child) { next.push(child) }`: a fork enters the plan once, at the place it is
found first. -/
def pushUnseen (state : List String × List String) (child : String) : List String × List String :=
  if state.2.contains child then state else (state.1 ++ [child], state.2 ++ [child])

/-- The forks of one level of repos, each once, with the set of what was seen. -/
def nextLevel (readDir : Except String (List (Option String))) (cache : String → Option String) :
    List String → List String × List String → Result (List String × List String)
  | [], state => .ok state
  | repo :: rest, state =>
      match listForksOf readDir cache repo with
      | .error e => .error (.io e)
      | .ok children => nextLevel readDir cache rest (children.foldl pushUnseen state)

/-- The levels of dependent forks, the deepest one first.  A level takes at least one
name of the directory, which bounds the rounds. -/
def cascadeLevels (readDir : Except String (List (Option String)))
    (cache : String → Option String) :
    Nat → List (List String) → List String → Result (List (List String))
  | 0, levels, _ => .ok levels
  | bound + 1, levels, seen =>
      match nextLevel readDir cache (levels.headD []) ([], seen) with
      | .error e => .error e
      | .ok (next, seen) =>
          if next.isEmpty then .ok levels
          else cascadeLevels readDir cache bound (next :: levels) seen

/-- `cascade_delete_order`: dependents before what they depend on. -/
def cascadeDeleteOrder (readDir : Except String (List (Option String)))
    (cache : String → Option String) (id : String) : Result (List String) := do
  let levels ← cascadeLevels readDir cache ((readDir.toOption.getD []).length + 1) [[id]] [id]
  return levels.flatten

/-- What `delete_repo` checks before it touches the disk: the repos it is going to
delete, in order. -/
def deletePlan (d : Deployment) (call : Call) (cache : String → Option String) (id : String)
    (force cascade : Option Bool) : Result (List String) := do
  let principal ← call.caller
  call.rate
  enforceOwner d.repos principal id
  let idTyped ← RepoId.tryFrom id
  let force := force.getD false
  let cascade := cascade.getD false
  if force && cascade then
    .error (.badRequest "force and cascade are mutually exclusive — pick one")
  if cascade then
    let order ← cascadeDeleteOrder (.ok d.disk.names) cache id
    order.forM fun dep => if dep = id then .ok () else enforceOwner d.repos principal dep
    return order
  else
    match listForksOf (.ok d.disk.names) cache id with
    | .error e => .error (.io e)
    | .ok forks =>
        if !forks.isEmpty && !force then
          .error (.forkDependency id forks)
        else
          return [idTyped.text]

/-- Delete repos one by one, the directory first and then the ownership row; the
first failure ends it. -/
def removeRepos (d : Deployment) : List String → Deployment × Result Unit
  | [] => (d, .ok ())
  | dep :: rest =>
      match RepoId.tryFrom dep with
      | .error e => (d, .error e)
      | .ok depTyped =>
          match FsStorage.delete d.disk depTyped with
          | (_, .error e) => (d, .error e)
          | (disk, .ok ()) =>
              removeRepos { d with disk := disk, repos := d.repos.remove depTyped } rest

/-- `delete_repo`; `cache` is what the alternates cache answers during the call. -/
def deleteRepo (d : Deployment) (call : Call) (cache : String → Option String) (id : String)
    (force cascade : Option Bool) : Deployment × Result (List String) :=
  match deletePlan d call cache id force cascade with
  | .error e => (d, .error e)
  | .ok order =>
      match removeRepos d order with
      | (d, .error e) => (d, .error e)
      | (d, .ok ()) => (d, .ok order)

end Rest
end Artifacts
