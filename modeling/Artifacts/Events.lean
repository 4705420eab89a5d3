import Artifacts.Ids

/-!
# Events

What the mutating handlers announce.  The repo an event is about, and its kind, are
what webhook subscriptions select by: a fork is an event of the parent.

Of what else an event carries nothing is read here.
-/

namespace Artifacts
namespace Events

inductive Event where
  | commit (repoId commitId branch message : String) (t : Int64)
  | fork (parentRepoId childRepoId : String) (t : Int64)
  | status (repoId source target : String) (t : Int64)
  deriving DecidableEq, Repr

inductive EventKind where
  | commit
  | fork
  | status
  deriving DecidableEq, Repr

def EventKind.asStr : EventKind → String
  | .commit => "commit"
  | .fork => "fork"
  | .status => "status"

/-- `repo_and_kind`. -/
def repoAndKind : Event → String × String
  | .commit repoId .. => (repoId, "commit")
  | .fork parentRepoId .. => (parentRepoId, "fork")
  | .status repoId .. => (repoId, "status")

theorem EventKind.asStr_inj {k k' : EventKind} : k.asStr = k'.asStr ↔ k = k' := by
  cases k <;> cases k' <;> decide

/-- Every repo has events of every kind. -/
theorem exists_event (repoId : String) (kind : EventKind) :
    ∃ ev, repoAndKind ev = (repoId, kind.asStr) := by
  cases kind with
  | commit => exact ⟨.commit repoId "" "" "" 0, rfl⟩
  | fork => exact ⟨.fork repoId "" 0, rfl⟩
  | status => exact ⟨.status repoId "" "" 0, rfl⟩

end Events
end Artifacts
