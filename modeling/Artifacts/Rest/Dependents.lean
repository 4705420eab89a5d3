import Artifacts.Foundation.Interleaving
import Artifacts.Rest.SameId
import Artifacts.Storage.Links

/-!
# Forks and deletions, step by step

`fork_repo` checks its source, makes the directory of the fork, writes its alternates
file and copies the refs; `delete_repo` without `force` computes what to delete from the
alternates files there are, and then removes one repo after the other.  Nothing keeps a
source from going between the check and the file, or a fork from coming between the plan
and the removal.

`alone` runs the steps of one call without any other, and `fork_alone` and `delete_alone` say that
this is the handler.  `Input` is what a step learns from outside, such as an mtime.
-/

namespace Artifacts
namespace Rest
namespace Dependents

open Auth Events Foundation Ownership Storage Tokens

/-- A call that makes a fork, or deletes without `force`. These are the calls that look at the links
between repos before they act on them. -/
inductive Op where
  | fork (sourceId : String) (id : Option RepoId) (readOnly : Bool)
  | delete (id : String) (cascade : Option Bool)

structure Job where
  op : Op
  call : Call

/-- How far a call has come: a fork goes through its checks, its directory, its alternates file and
the copy of the refs; a deletion through the repos of its plan, one after the other. -/
inductive Place where
  | start
  /-- The source is there and the path of the fork is free. -/
  | checked (principal : Principal) (source fork : RepoId)
  | made (principal : Principal) (source fork : RepoId)
  /-- The alternates file is written. -/
  | linked (principal : Principal) (source fork : RepoId)
  | copied (principal : Principal) (fork : RepoId)
  | returned (reply : Result RepoHandle)
  /-- The repos of the plan that are still to be removed. -/
  | removing (order rest : List String)
  | removed (order : List String) (dep : RepoId) (rest : List String)
  | deleted (reply : Result (List String))

/-- The deployment, the mtimes of the alternates files and the cache in front of them. -/
structure Site where
  d : Deployment
  mtimes : String → Nat
  entries : String → Option CacheEntry

/-- What a step gets from the system: the time, and the text of an I/O error. -/
structure Input where
  mtime : Nat
  cause : String

/-- What happens besides the calls. None of it makes or removes a repo, or changes whom one borrows
from. -/
inductive Outside where
  /-- Anyone looks a repo up in the cache. -/
  | lookup (id : String)
  /-- A push, a collection: all of a repo may change but its alternates file. -/
  | content (id : String) (dir : RepoDir)
  /-- The other stores may change. -/
  | stores (d' : Deployment)

variable {κ : Type} (lib : Library) (cfg : Config) (fs : FileSystem) (jobs : κ → Job)

/-- A lookup in the alternates cache. -/
def lookup (s : Site) (id : String) : Option String × (String → Option CacheEntry) :=
  cacheLookup s.entries (statAlternates s.d.disk s.mtimes id) (fs.source s.d.disk id) id

/-- What the cache answers now. -/
def answers (s : Site) (id : String) : Option String := (lookup fs s id).1

/-- One step of a fork. -/
def forkAct (call : Call) (sourceId : String) (id : Option RepoId) (readOnly : Bool)
    (input : Input) (s : Site) : Place → Site × Place
  | .start =>
      match forkChecks cfg s.d call sourceId with
      | .error e => (s, .returned (.error e))
      | .ok (principal, source) =>
          let fork := id.getD call.newRepoId
          match forkPathChecks s.d.disk source fork with
          | .error e => (s, .returned (.error e))
          | .ok () => (s, .checked principal source fork)
  | .checked principal source fork =>
      ({ s with d := { s.d with disk := s.d.disk.ensureDir fork.text } },
        .made principal source fork)
  | .made principal source fork =>
      -- the directory may have been removed again
      if s.d.disk.isRepo fork.text then
        ({ s with
            d := { s.d with
              disk := s.d.disk.writeAlternates cfg.reposDir source.text fork.text }
            mtimes := Function.update s.mtimes fork.text input.mtime },
          .linked principal source fork)
      else
        (s, .returned (.error (.io input.cause)))
  | .linked principal source fork =>
      -- so may the source, and then its HEAD cannot be read
      if s.d.disk.isRepo source.text && s.d.disk.isRepo fork.text then
        ({ s with d := { s.d with disk := s.d.disk.copyRefs source.text fork.text } },
          .copied principal fork)
      else
        (s, .returned (.error (.io input.cause)))
  | .copied principal fork =>
      let registered := register lib cfg s.d call principal fork
        (if readOnly then .read else .write) (.fork sourceId fork.text call.nowMs)
      ({ s with d := registered.1 }, .returned registered.2)
  | p => (s, p)

/-- One step of a deletion. -/
def deleteAct (call : Call) (id : String) (cascade : Option Bool) (s : Site) :
    Place → Site × Place
  | .start =>
      match deletePlan s.d call (answers fs s) id none cascade with
      | .error e => (s, .deleted (.error e))
      | .ok order => (s, .removing order order)
  | .removing order [] => (s, .deleted (.ok order))
  | .removing order (dep :: rest) =>
      match RepoId.tryFrom dep with
      | .error e => (s, .deleted (.error e))
      | .ok depTyped =>
          match FsStorage.delete s.d.disk depTyped with
          | (_, .error e) => (s, .deleted (.error e))
          | (disk, .ok ()) =>
              ({ s with d := { s.d with disk := disk } }, .removed order depTyped rest)
  | .removed order dep rest =>
      ({ s with
          d := { s.d with repos := s.d.repos.remove dep }
          entries := Function.update s.entries dep.text none },
        .removing order rest)
  | p => (s, p)

/-- One step of call `k`. -/
def act (k : κ) (input : Input) (s : Site) (p : Place) : Site × Place :=
  match (jobs k).op with
  | .fork sourceId id readOnly => forkAct lib cfg (jobs k).call sourceId id readOnly input s p
  | .delete id cascade => deleteAct fs (jobs k).call id cascade s p

/-- Whatever else happens. -/
def outside (o : Outside) (s : Site) : Site :=
  match o with
  | .lookup id => { s with entries := (lookup fs s id).2 }
  | .content id dir =>
      { s with
        d := { s.d with
          disk := s.d.disk.modify id fun old => { dir with alternates := old.alternates } } }
  | .stores d' => { s with d := { d' with disk := s.d.disk } }

/-- The moves of all calls together. -/
def step [DecidableEq κ] (c : Calls κ Site Place) (m : Move κ Input Outside) :
    Calls κ Site Place :=
  c.move (act lib cfg fs jobs) (outside fs) m

/-! ### A call that runs alone -/

/-- Some steps of one call, with nothing between them. -/
def alone (k : κ) (input : Input) : Nat → Site × Place → Site × Place
  | 0, sp => sp
  | n + 1, sp => alone k input n (act lib cfg fs jobs k input sp.1 sp.2)

variable {lib cfg fs jobs}

theorem alone_fork {k : κ} {sourceId : String} {id : Option RepoId} {readOnly : Bool}
    (hop : (jobs k).op = .fork sourceId id readOnly) (input : Input) (n : Nat) (s : Site)
    (p : Place) :
    alone lib cfg fs jobs k input (n + 1) (s, p) =
      alone lib cfg fs jobs k input n
        (forkAct lib cfg (jobs k).call sourceId id readOnly input s p) := by
  rw [alone, act, hop]

theorem alone_delete {k : κ} {id : String} {cascade : Option Bool}
    (hop : (jobs k).op = .delete id cascade) (input : Input) (n : Nat) (s : Site) (p : Place) :
    alone lib cfg fs jobs k input (n + 1) (s, p) =
      alone lib cfg fs jobs k input n (deleteAct fs (jobs k).call id cascade s p) := by
  rw [alone, act, hop]

/-- A call that has returned stays where it is. -/
theorem alone_returned {k : κ} {sourceId : String} {id : Option RepoId} {readOnly : Bool}
    (hop : (jobs k).op = .fork sourceId id readOnly) (input : Input) (n : Nat) (s : Site)
    (reply : Result RepoHandle) :
    alone lib cfg fs jobs k input n (s, .returned reply) = (s, .returned reply) := by
  induction n with
  | zero => rfl
  | succ n ih => exact (alone_fork hop input n s _).trans ih

theorem alone_deleted {k : κ} {id : String} {cascade : Option Bool}
    (hop : (jobs k).op = .delete id cascade) (input : Input) (n : Nat) (s : Site)
    (reply : Result (List String)) :
    alone lib cfg fs jobs k input n (s, .deleted reply) = (s, .deleted reply) := by
  induction n with
  | zero => rfl
  | succ n ih => exact (alone_delete hop input n s _).trans ih

/-- **`fork_repo`, step by step.** -/
theorem fork_alone {k : κ} {sourceId : String} {id : Option RepoId} {readOnly : Bool}
    (hop : (jobs k).op = .fork sourceId id readOnly) (input : Input) (s : Site) :
    ∃ s', alone lib cfg fs jobs k input 5 (s, .start) =
        (s', .returned (forkRepo lib cfg s.d (jobs k).call sourceId id readOnly).2) ∧
      s'.d = (forkRepo lib cfg s.d (jobs k).call sourceId id readOnly).1 := by
  unfold forkRepo
  rw [alone_fork hop, forkAct]
  cases forkChecks cfg s.d (jobs k).call sourceId with
  | error e => exact ⟨s, alone_returned hop input 4 s _, rfl⟩
  | ok checked =>
      obtain ⟨principal, source⟩ := checked
      dsimp only
      generalize id.getD (jobs k).call.newRepoId = fork
      unfold forkPathChecks FsStorage.fork
      by_cases hsource : (!s.d.disk.isRepo source.text) = true
      · rw [if_pos hsource, if_pos hsource]
        exact ⟨s, alone_returned hop input 4 s _, rfl⟩
      · by_cases hpath : s.d.disk.pathExists fork.text = true
        · rw [if_neg hsource, if_neg hsource, if_pos hpath, if_pos hpath]
          exact ⟨s, alone_returned hop input 4 s _, rfl⟩
        · have hsource' : s.d.disk.isRepo source.text = true := by simpa using hsource
          have hfree : s.d.disk.pathExists fork.text = false := Bool.eq_false_iff.mpr hpath
          have hmade : (s.d.disk.ensureDir fork.text).isRepo fork.text = true := by
            rw [Disk.isRepo_ensureDir hfree, decide_eq_true rfl, Bool.true_or]
          have hthere : (s.d.disk.ensureDir fork.text).isRepo source.text = true :=
            Disk.isRepo_ensureDir_of_isRepo hsource' fork.text
          rw [if_neg hsource, if_neg hsource, if_neg hpath, if_neg hpath]
          dsimp only
          rw [alone_fork hop, forkAct, alone_fork hop, forkAct, if_pos hmade, alone_fork hop,
            forkAct]
          dsimp only
          rw [Disk.isRepo_writeAlternates, Disk.isRepo_writeAlternates, hmade, hthere,
            Disk.addFork_eq cfg.reposDir hsource' hfree]
          exact ⟨_, alone_fork hop input 0 _ _, rfl⟩

theorem removeRepos_alone (lib : Library) (cfg : Config) (fs : FileSystem) {k : κ} {id : String} {cascade : Option Bool}
    (hop : (jobs k).op = .delete id cascade) (input : Input) (order rest : List String)
    (s : Site) :
    ∃ n s', alone lib cfg fs jobs k input n (s, .removing order rest) =
        (s', .deleted ((removeRepos s.d rest).2.map fun _ => order)) ∧
      s'.d = (removeRepos s.d rest).1 := by
  induction rest generalizing s with
  | nil => exact ⟨1, s, alone_delete hop input 0 s _, rfl⟩
  | cons dep rest ih =>
      rw [removeRepos]
      cases hdep : RepoId.tryFrom dep with
      | error e =>
          refine ⟨1, s, ?_, rfl⟩
          rw [alone_delete hop, deleteAct, hdep]
          rfl
      | ok depTyped =>
          dsimp only
          rcases hdelete : FsStorage.delete s.d.disk depTyped with ⟨disk, removed⟩
          cases removed with
          | error e =>
              refine ⟨1, s, ?_, rfl⟩
              rw [alone_delete hop, deleteAct, hdep]
              dsimp only
              rw [hdelete]
              rfl
          | ok _ =>
              obtain ⟨n, s', heq, hd⟩ := ih
                { s with
                  d := { s.d with disk := disk, repos := s.d.repos.remove depTyped }
                  entries := Function.update s.entries depTyped.text none }
              refine ⟨n + 2, s', ?_, hd⟩
              rw [alone_delete hop, deleteAct, hdep]
              dsimp only
              rw [hdelete]
              dsimp only
              rw [alone_delete hop, deleteAct]
              exact heq

/-- **`delete_repo`, step by step.** -/
theorem delete_alone {k : κ} {id : String} {cascade : Option Bool}
    (hop : (jobs k).op = .delete id cascade) (input : Input) (s : Site) :
    ∃ n s', alone lib cfg fs jobs k input n (s, .start) =
        (s', .deleted (deleteRepo s.d (jobs k).call (answers fs s) id none cascade).2) ∧
      s'.d = (deleteRepo s.d (jobs k).call (answers fs s) id none cascade).1 := by
  unfold deleteRepo
  cases hplan : deletePlan s.d (jobs k).call (answers fs s) id none cascade with
  | error e =>
      refine ⟨1, s, ?_, rfl⟩
      rw [alone_delete hop, deleteAct, hplan]
      rfl
  | ok order =>
      obtain ⟨n, s', heq, hd⟩ := removeRepos_alone lib cfg fs hop input order order s
      refine ⟨n + 1, s', ?_, ?_⟩
      · rw [alone_delete hop, deleteAct, hplan]
        dsimp only
        rw [heq]
        cases removeRepos s.d order with
        | mk d removed => cases removed <;> rfl
      · rw [hd]
        dsimp only
        cases removeRepos s.d order with
        | mk d removed => cases removed <;> rfl

end Dependents
end Rest
end Artifacts
