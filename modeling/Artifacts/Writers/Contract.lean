import Artifacts.SmartHttp.UpdateDiscipline
import Artifacts.Writers.Merge
import Mathlib.Logic.Relation

/-!
# What git does for the writers

`SoundGit` says what the successful answers of git and gix mean, and that no commit is ever
rewritten.  `DocumentedGit` says also when each command of a merge succeeds, and with which
exit code it fails.

Refusals are left open wherever git may refuse for reasons of its own.  That both contracts can be
met, at once and on any history, is shown by `SmallGit`.
-/

namespace Artifacts
namespace Writers

open GitWire Refs Rust SmartHttp
open Relation (ReflTransGen)

/-- What there is in a repository: the value of each ref, and the parents of each commit. -/
structure RepoView (σ : Type) where
  ref : σ → RepoId → String → Option Oid
  parents : σ → Oid → Option (List Oid)

namespace RepoView

variable {σ : Type} (view : RepoView σ)

/-- The first commit is an ancestor of the second, or the second itself. -/
def Ancestor (s : σ) : Oid → Oid → Prop :=
  ReflTransGen fun x y => ∃ ps, view.parents s y = some ps ∧ x ∈ ps

/-- No commit is lost or rewritten. New ones may appear at any time, and refs may move. -/
def Extends (s s' : σ) : Prop := ∀ id ps, view.parents s id = some ps → view.parents s' id = some ps

variable {view} {s s' : σ}

theorem Ancestor.mono (h : view.Extends s s') {x y : Oid} (hxy : view.Ancestor s x y) :
    view.Ancestor s' x y := by
  have hstep : ∀ a b, (∃ ps, view.parents s b = some ps ∧ a ∈ ps) →
      ∃ ps, view.parents s' b = some ps ∧ a ∈ ps := by
    rintro a b ⟨ps, hps, ha⟩
    exact ⟨ps, h b ps hps, ha⟩
  exact ReflTransGen.mono hstep _ _ hxy

theorem Ancestor.of_parent {x y : Oid} {ps : List Oid} (hps : view.parents s y = some ps)
    (hx : x ∈ ps) : view.Ancestor s x y :=
  ReflTransGen.single ⟨ps, hps, hx⟩

end RepoView

/-- Operations that move no ref. -/
def Quiet : Op → Prop
  | .casUpdate .. => False
  | .refUpdate _ => False
  | _ => True

/-- What the writers rely on: what the successful answers of git and gix mean, in repositories
without symbolic refs (`plain`), for refs under `refs/`. Each operation may fail at any time. What
an answer says is true of the objects from then on, for commits are not rewritten. -/
structure SoundGit {σ : Type} (site : Site σ) (view : RepoView σ) (plain : σ → Prop) : Prop where
  keeps : ∀ op s, plain s → plain (site.handle op s).2 ∧ view.Extends s (site.handle op s).2
  quiet : ∀ op s, Quiet op → plain s → ∀ name,
    view.ref (site.handle op s).2 site.repoId name = view.ref s site.repoId name
  /-- No object has the id zero, and no ref is at it. -/
  parents_zero : ∀ s, plain s → view.parents s zeroOid = none
  objectExists_zero : ∀ s, plain s → site.objectExists s zeroOid ≠ .ok true
  showRef : ∀ s env name out err, plain s →
    (site.handle (.git (.showRef name) env) s).1 = .ok (0, out, err) →
      utf8Trimmed out ≠ .ok zeroOid.text
  isAncestor : ∀ s env (x y : Oid) out err, plain s →
    (site.handle (.git (.isAncestor x.text y.text) env) s).1 = .ok (0, out, err) →
      view.Ancestor s x y
  commitTree : ∀ s env tree (target commit : Oid) source message out err, plain s →
    (site.handle (.git (.commitTree tree target.text source message) env) s).1 =
        .ok (0, out, err) →
      utf8Trimmed out = .ok commit.text →
        ∃ ps, view.parents (site.handle (.git (.commitTree tree target.text source message) env)
          s).2 commit = some ps ∧ target ∈ ps
  writeObject : ∀ s commit id, plain s → (site.gix (.writeObject commit) s).1 = .ok id →
    view.parents (site.gix (.writeObject commit) s).2 id = some commit.parents
  /-- What `update-ref` may change, and when. -/
  refs : UpdateRefContract (site.runGit []) view.ref plain
  /-- `update-ref R NEW OLD` that succeeds found `OLD`. -/
  updateRef : ∀ s (name : RefName) (new old : Oid) out err, plain s →
    startsWith name.text "refs/" = true →
    let result := site.runGit [] s site.repoId
      ["update-ref", "--end-of-options", name.text, new.text, old.text]
    result.1 = .ok (0, out, err) →
      view.ref s site.repoId name.text = expectedValue old ∧
        view.ref result.2 site.repoId name.text = expectedValue new
  /-- It leaves the ref as it was, or at `NEW`. -/
  updateRef_moved : ∀ s (name : RefName) (new old : Oid), plain s →
    startsWith name.text "refs/" = true →
    let result := site.runGit [] s site.repoId
      ["update-ref", "--end-of-options", name.text, new.text, old.text]
    view.ref result.2 site.repoId name.text ≠ view.ref s site.repoId name.text →
      view.ref result.2 site.repoId name.text = expectedValue new
  /-- `update-ref -d R OLD` that succeeds found `OLD`, unless that is the zero id. -/
  deleteRef : ∀ s (name : RefName) (old : Oid) out err, plain s →
    startsWith name.text "refs/" = true → old ≠ zeroOid →
    (site.runGit [] s site.repoId
        ["update-ref", "-d", "--end-of-options", name.text, old.text]).1 = .ok (0, out, err) →
      view.ref s site.repoId name.text = some old

/-! ### Every command of a merge -/

/-- What a three-way merge comes to: a tree, a tree with conflicts and git's records of them, or a
refusal because the histories have nothing in common. -/
inductive MergeReport where
  | clean (tree : Oid)
  /-- The records after the tree. -/
  | conflict (tree : Oid) (details : List UInt8)
  /-- The histories have nothing in common. -/
  | refused
  deriving DecidableEq, Repr

/-- What merges depend on, besides refs and commits: what git makes of two commits, which trees are
there, and whose commits it takes. -/
structure MergeView (σ : Type) extends RepoView σ where
  merge : σ → Oid → Oid → MergeReport
  hasTree : σ → Oid → Prop
  /-- Whether git takes this author and this message for a commit now. -/
  accepts : σ → Author → String → Bool

/-- What a command that only reads leaves as it was. -/
structure MergeView.Same {σ : Type} (view : MergeView σ) (s s' : σ) : Prop where
  parents : ∀ oid, view.parents s' oid = view.parents s oid
  merge : ∀ target source, view.merge s' target source = view.merge s target source
  accepts : ∀ author message, view.accepts s' author message = view.accepts s author message

/-- The commands of a merge behave as documented; and `show-ref --verify` exits 128 for a missing
ref. Beyond `SoundGit` it says when a command succeeds, so it is about a repository that nobody else
writes to meanwhile. -/
structure DocumentedGit {σ : Type} (site : Site σ) (view : MergeView σ) (plain : σ → Prop) : Prop
    extends SoundGit site view.toRepoView plain where
  /-- Branches are at commits. -/
  tip : ∀ s branch oid, plain s → view.ref s site.repoId (branchRef branch) = some oid →
    view.parents s oid ≠ none
  showRef_present : ∀ s name oid, plain s → view.ref s site.repoId name = some oid →
    ∃ err, (site.handle (.git (.showRef name) []) s).1 = .ok (0, asBytes (oid.text ++ "\n"), err)
  showRef_missing : ∀ s name, plain s → view.ref s site.repoId name = none →
    ∃ out err, (site.handle (.git (.showRef name) []) s).1 = .ok (128, out, err)
  isAncestor_iff : ∀ s (x y : Oid), plain s → view.parents s x ≠ none → view.parents s y ≠ none →
    ∃ rc out err, (site.handle (.git (.isAncestor x.text y.text) []) s).1 = .ok (rc, out, err) ∧
      (rc = 0 ∧ view.Ancestor s x y ∨ rc = 1 ∧ ¬ view.Ancestor s x y)
  revParseTree : ∀ s (commit : Oid), plain s → view.parents s commit ≠ none →
    ∃ (tree : Oid) (err : List UInt8),
      (site.handle (.git (.revParseTree commit.text) []) s).1 =
        .ok (0, asBytes (tree.text ++ "\n"), err)
  mergeTree : ∀ s (target source : Oid), plain s → view.parents s target ≠ none →
    view.parents s source ≠ none →
    let result := site.handle (.git (.mergeTree target.text source.text) []) s
    match view.merge s target source with
    | .clean tree =>
        (∃ err, result.1 = .ok (0, asBytes tree.text ++ [0], err)) ∧ view.hasTree result.2 tree
    | .conflict tree details => ∃ err, result.1 = .ok (1, asBytes tree.text ++ 0 :: details, err)
    | .refused => ∃ rc out err, rc ≠ 0 ∧ rc ≠ 1 ∧ result.1 = .ok (rc, out, err)
  /-- A merge of a descendant has nothing to reconcile. -/
  merge_descendant : ∀ s target source, plain s → view.parents s source ≠ none →
    view.Ancestor s target source → ∃ tree, view.merge s target source = .clean tree
  /-- All commands but `commit-tree` only read. -/
  reads : ∀ s command, plain s →
    (∀ tree target source message, command ≠ .commitTree tree target source message) →
    view.Same s (site.handle (.git command []) s).2
  commitTree_accepted : ∀ s (tree target source : Oid) (body : MergeBody), plain s →
    view.hasTree s tree → view.parents s target ≠ none → view.parents s source ≠ none →
    view.accepts s (authorOr body.author) (mergeMessage body) = true →
    let result := site.handle (.git (.commitTree tree.text target.text source.text
      (mergeMessage body)) (commitEnv body)) s
    ∃ (commit : Oid) (err : List UInt8), result.1 = .ok (0, asBytes (commit.text ++ "\n"), err) ∧
      view.parents result.2 commit = some [target, source]
  commitTree_refused : ∀ s tree target source (body : MergeBody), plain s →
    view.accepts s (authorOr body.author) (mergeMessage body) = false →
    let answer := (site.handle (.git (.commitTree tree target source (mergeMessage body))
      (commitEnv body)) s).1
    (∃ cause, answer = .error (.io cause)) ∨ ∃ rc out err, rc ≠ 0 ∧ answer = .ok (rc, out, err)
  /-- A branch that has the expected value can be moved to any commit. -/
  updateRef_succeeds : ∀ s (name : RefName) branch (new old : Oid), plain s →
    name.text = branchRef branch → view.ref s site.repoId name.text = some old →
    view.parents s new ≠ none →
    ∃ out err, (site.runGit [] s site.repoId
      ["update-ref", "--end-of-options", name.text, new.text, old.text]).1 = .ok (0, out, err)

end Writers
end Artifacts
