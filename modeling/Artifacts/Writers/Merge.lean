import Artifacts.Rust.Lossy
import Artifacts.Writers.Commits

/-!
# Server-side merges

`mergeBranches` follows the handler of `POST /v1/repos/:id/merge`: it resolves both
branches, asks `git` how their tips are related, and then leaves the target alone, moves it
forward, or builds a merge commit and moves it there.  Every answer comes as an exit code
and the bytes the command printed.

Exit codes and bytes are read as in the source: 0, 1 and anything else.  The texts of the errors
are the source's where a result speaks of them.
-/

namespace Artifacts
namespace Writers

open Foundation Refs Rust

inductive Strategy where
  | auto
  | ffOnly
  | merge
  deriving DecidableEq, Repr

structure MergeBody where
  sourceBranch : String
  targetBranch : String
  strategy : Strategy
  message : Option String
  author : Option Author
  deriving DecidableEq, Repr

structure MergeResult where
  commit : String
  tree : String
  fastForward : Bool
  sourceCommit : String
  targetBranch : String
  deriving DecidableEq, Repr

/-- Exit code, stdout and stderr of a command, or the error of its spawn. -/
abbrev GitOutput := Result (Int × List UInt8 × List UInt8)

/-- `String::from_utf8(bytes)?.trim()`. -/
def utf8Trimmed (bytes : List UInt8) : Result String :=
  match fromUtf8 bytes with
  -- the byte position of the decoding error is left out of the text
  | none => .error (.other "invalid utf-8 sequence")
  | some text => .ok (trim text)

/-- An id that a command prints on a line. -/
theorem utf8Trimmed_line (o : Oid) : utf8Trimmed (asBytes (o.text ++ "\n")) = .ok o.text := by
  rw [utf8Trimmed, fromUtf8_asBytes]
  exact congrArg Except.ok (trim_line fun _ => o.isWhitespace_of_mem)

theorem utf8Trimmed_oid (o : Oid) : utf8Trimmed (asBytes o.text) = .ok o.text := by
  rw [utf8Trimmed, fromUtf8_asBytes]
  exact congrArg Except.ok (trim_eq_self fun _ => o.isWhitespace_of_mem)

/-! ### Reading the answers of git -/

/-- What `resolve_ref` makes of `git show-ref`. -/
def readShowRef : GitOutput → Result (Option String)
  | .error e => .error e
  | .ok (rc, stdout, stderr) =>
      if rc = 0 then
        match utf8Trimmed stdout with
        | .error e => .error e
        | .ok sha => .ok (some sha)
      else if rc = 1 then
        .ok none
      else
        .error (.other ("show-ref failed: rc=" ++ toString rc ++ " stderr=" ++
          fromUtf8Lossy stderr))

/-- What `is_ancestor` makes of `git merge-base`. -/
def readIsAncestor : GitOutput → Result Bool
  | .error e => .error e
  | .ok (rc, _, stderr) =>
      if rc = 0 then .ok true
      else if rc = 1 then .ok false
      else .error (.other ("merge-base --is-ancestor failed: " ++ fromUtf8Lossy stderr))

/-- What `tree_of` makes of `git rev-parse`. -/
def readTreeOf : GitOutput → Result String
  | .error e => .error e
  | .ok (rc, stdout, stderr) =>
      if rc ≠ 0 then .error (.other ("rev-parse tree failed: " ++ fromUtf8Lossy stderr))
      else utf8Trimmed stdout

/-- What the handler makes of `git commit-tree`. -/
def readCommitTree : GitOutput → Result String
  | .error e => .error e
  | .ok (rc, stdout, stderr) =>
      if rc ≠ 0 then .error (.other ("commit-tree failed: " ++ fromUtf8Lossy stderr))
      else utf8Trimmed stdout

inductive MergeTreeOutcome where
  | clean (tree : String)
  | conflict (paths : List String)
  deriving DecidableEq, Repr

/-- The conflicted paths among the records of a report, each once. -/
def conflictPaths : List (List UInt8) → List String → Result (List String)
  | [], paths => .ok paths
  | record :: records, paths =>
      -- an empty record has no TAB either
      if (9 : UInt8) ∈ record then
        match fromUtf8 ((record.dropWhile (· != 9)).drop 1) with
        | none => .error (.other "invalid utf-8 sequence")
        | some path =>
            conflictPaths records (if paths.contains path then paths else paths ++ [path])
      else
        conflictPaths records paths

/-- What `run_merge_tree` makes of `git merge-tree`. -/
def readMergeTree : GitOutput → Result MergeTreeOutcome
  | .error e => .error e
  | .ok (rc, stdout, stderr) =>
      if rc ≠ 0 ∧ rc ≠ 1 then
        .error (.other ("merge-tree failed: rc=" ++ toString rc ++ " stderr=" ++
          fromUtf8Lossy stderr))
      else if (0 : UInt8) ∉ stdout then
        .error (.other "merge-tree produced no NUL-terminated tree sha")
      else
        match utf8Trimmed (stdout.takeWhile (· != 0)) with
        | .error e => .error e
        | .ok tree =>
            if rc = 0 then
              .ok (.clean tree)
            else
              match conflictPaths (((stdout.dropWhile (· != 0)).drop 1).splitOn 0) [] with
              | .error e => .error e
              | .ok [] =>
                  .error (.other
                    "merge-tree reported conflict but emitted no parseable paths")
              | .ok (path :: paths) => .ok (.conflict (path :: paths))

/-- Ask for a command with no further environment. -/
def askGit {α : Type} (command : GitCommand) (read : GitOutput → Result α) : Writer α :=
  .ask (.git command []) fun output => .ret (read output)

def resolveRef (refName : String) : Writer (Option String) :=
  askGit (.showRef refName) readShowRef

def isAncestor (ancestor descendant : String) : Writer Bool :=
  askGit (.isAncestor ancestor descendant) readIsAncestor

def treeOf (commit : String) : Writer String :=
  askGit (.revParseTree commit) readTreeOf

def runMergeTree (target source : String) : Writer MergeTreeOutcome :=
  askGit (.mergeTree target source) readMergeTree

/-! ### The handler -/

section Handler

variable (cfg : Config) (body : MergeBody)

/-- Step 3: the source is contained in the target, which stays. -/
def reportContained (sourceSha targetSha : String) : Writer MergeResult :=
  (treeOf targetSha).andThen fun tree =>
  lift (.ok ⟨targetSha, tree, false, sourceSha, body.targetBranch⟩)

/-- Step 4: the target moves to the source's tip. -/
def fastForward (sourceSha : String) (targetSha : Option String) : Writer MergeResult :=
  (lift (RefName.tryFrom cfg.printable (branchRef body.targetBranch))).andThen fun refName =>
  (lift (Oid.tryFrom cfg.printable sourceSha)).andThen fun source =>
  (lift (match targetSha with
    | some s => (Oid.tryFrom cfg.printable s).map some
    | none => .ok none)).andThen fun target =>
  (casBranch body.targetBranch refName target source).andThen fun _ =>
  (treeOf sourceSha).andThen fun tree =>
  lift (.ok ⟨sourceSha, tree, true, sourceSha, body.targetBranch⟩)

/-- The environment of `git commit-tree`. -/
def commitEnv : List (String × String) :=
  [("GIT_AUTHOR_NAME", (authorOr body.author).name),
    ("GIT_AUTHOR_EMAIL", (authorOr body.author).email),
    ("GIT_COMMITTER_NAME", (authorOr body.author).name),
    ("GIT_COMMITTER_EMAIL", (authorOr body.author).email)]

def mergeMessage : String :=
  body.message.getD ("Merge " ++ body.sourceBranch ++ " into " ++ body.targetBranch)

/-- Steps 7 and 8: the merge commit, and the target's move to it. -/
def recordMerge (sourceSha targetSha mergedTree : String) : Writer MergeResult :=
  .ask (.git (.commitTree mergedTree targetSha sourceSha (mergeMessage body)) (commitEnv body))
    fun output =>
  (lift (readCommitTree output)).andThen fun commitSha =>
  (lift (RefName.tryFrom cfg.printable (branchRef body.targetBranch))).andThen fun refName =>
  (lift (Oid.tryFrom cfg.printable targetSha)).andThen fun target =>
  (lift (Oid.tryFrom cfg.printable commitSha)).andThen fun commit =>
  (casBranch body.targetBranch refName (some target) commit).andThen fun _ =>
  lift (.ok ⟨commitSha, mergedTree, false, sourceSha, body.targetBranch⟩)

/-- Step 6: the three-way merge. -/
def threeWay (sourceSha : String) : Option String → Writer MergeResult
  | none =>
      .fail (.other
        "merge reached three-way path with no target sha — control flow invariant broken")
  | some targetSha =>
      (runMergeTree targetSha sourceSha).andThen fun outcome =>
      match outcome with
      | .clean tree => recordMerge cfg body sourceSha targetSha tree
      | .conflict paths =>
          .fail (.mergeConflict body.targetBranch body.sourceBranch paths)

/-- Steps 4 to 8. -/
def advance (sourceSha : String) (targetSha : Option String) : Writer MergeResult :=
  (match targetSha with
    | none => lift (.ok true)
    | some t => isAncestor t sourceSha).andThen fun ffAvailable =>
  if ffAvailable ∧ body.strategy ≠ Strategy.merge then
    fastForward cfg body sourceSha targetSha
  else if body.strategy = Strategy.ffOnly then
    .fail (.badRequest "not a fast-forward: target has diverged from source")
  else
    threeWay cfg body sourceSha targetSha

/-- Steps 3 to 8. -/
def land (sourceSha : String) : Option String → Writer MergeResult
  | some t =>
      (isAncestor sourceSha t).andThen fun contained =>
      if contained then reportContained body sourceSha t
      else advance cfg body sourceSha (some t)
  | none => advance cfg body sourceSha none

/-- `merge_branches`: the checks of the request, the two tips, and what `land` makes of them. -/
def mergeBranches (admitted : Result Unit) : Writer MergeResult :=
  (lift admitted).andThen fun _ =>
  if !validBranchName body.sourceBranch then
    .fail (.badRequest
      ("invalid source branch name: " ++ debugStr cfg.printable body.sourceBranch))
  else if !validBranchName body.targetBranch then
    .fail (.badRequest
      ("invalid target branch name: " ++ debugStr cfg.printable body.targetBranch))
  else if body.sourceBranch = body.targetBranch then
    .fail (.badRequest "source and target branches must differ")
  else
    (resolveRef (branchRef body.sourceBranch)).andThen fun source =>
    match source with
    | none => .fail (.badRequest ("source branch does not exist: " ++ body.sourceBranch))
    | some sourceSha =>
        (lift (validateSha cfg.printable sourceSha)).andThen fun _ =>
        (resolveRef (branchRef body.targetBranch)).andThen fun target =>
        (lift (match target with
          | some s => validateSha cfg.printable s
          | none => .ok ())).andThen fun _ =>
        land cfg body sourceSha target

end Handler

end Writers
end Artifacts
