import Artifacts.Foundation.Programs
import Artifacts.SmartHttp.ReceivePack

/-!
# What the writers of refs ask for

A REST commit, a merge and a push work on one repository.  Each is a program that asks
for one operation after another: a run of `git`, a call of `gix`, a look into the object
store, a compare-and-swap of the ref store.  `Site` is a repository that answers them.

Operations have the arguments that the source passes, as texts.  What is answered is up to the
site; a contract on the answers is in `Contract`.
-/

namespace Artifacts
namespace Writers

open Foundation GitWire Refs Rust SmartHttp

/-! ### Operations -/

/-- The commands `merge.rs` runs through `run_git`. -/
inductive GitCommand where
  | showRef (refName : String)
  | isAncestor (ancestor descendant : String)
  | revParseTree (commit : String)
  | mergeTree (target source : String)
  | commitTree (tree target source message : String)
  deriving DecidableEq, Repr

/-- Their arguments. -/
def GitCommand.args : GitCommand → List String
  | .showRef refName => ["show-ref", "--verify", "--hash", refName]
  | .isAncestor ancestor descendant => ["merge-base", "--is-ancestor", ancestor, descendant]
  | .revParseTree commit => ["rev-parse", commit ++ "^\x7btree\x7d"]
  | .mergeTree target source => ["merge-tree", "--write-tree", "-z", target, source]
  | .commitTree tree target source message =>
      ["commit-tree", tree, "-p", target, "-p", source, "-m", message]

/-- `gix::objs::tree::EntryKind`, as far as a commit request reaches. -/
inductive EntryKind where
  | blob
  | blobExecutable
  deriving DecidableEq, Repr

inductive TreeEdit where
  | upsert (path : String) (kind : EntryKind) (id : Oid)
  | remove (path : String)
  deriving DecidableEq, Repr

/-- A tree editor of `gix`: the tree it was opened on, and the edits it took, the latest
first. -/
structure TreeEditor where
  base : Oid
  edits : List TreeEdit
  deriving DecidableEq, Repr

/-- `gix::actor::Signature`, in UTC. -/
structure Signature where
  name : String
  email : String
  seconds : Nat
  deriving DecidableEq, Repr

/-- `gix::objs::Commit`. -/
structure Commit where
  tree : Oid
  parents : List Oid
  author : Signature
  committer : Signature
  message : String
  deriving DecidableEq, Repr

/-- The calls of `build_and_write_commit`. An editor of a tree is handed to the calls as gix does
it; it is not part of the repository. -/
inductive GixCall where
  | openRepo
  | findCommit (oid : Oid)
  | treeId (oid : Oid)
  | editTree (base : Oid)
  | writeBlob (bytes : List UInt8)
  | upsert (editor : TreeEditor) (path : String) (kind : EntryKind) (id : Oid)
  | remove (editor : TreeEditor) (path : String)
  | writeTree (editor : TreeEditor)
  | writeObject (commit : Commit)
  deriving DecidableEq, Repr

/-- Their answers; an error is the text it prints. -/
abbrev GixCall.Answer : GixCall → Type
  | .openRepo | .findCommit _ | .editTree _ | .upsert .. | .remove .. => Except String Unit
  | .treeId _ | .writeBlob _ | .writeTree _ | .writeObject _ => Except String Oid

/-- One operation of a writer: between any two of them other writers may act. An operation is whole,
as a call of git or of a store is to its caller. -/
inductive Op where
  | git (command : GitCommand) (env : List (String × String))
  | gix (call : GixCall)
  /-- `ObjectStore::exists`. -/
  | objectExists (oid : Oid)
  /-- `SystemTime::now`. -/
  | systemTime
  /-- `RefStore::cas_update`. -/
  | casUpdate (refName : RefName) (expected : Option Oid) (newSha : Oid)
  /-- The pack of a push. -/
  | unpack (req : ReceivePackRequest)
  | connectivity (unpack : Except String Unit) (req : ReceivePackRequest)
  /-- `apply_ref_update`. -/
  | refUpdate (u : RefUpdate)

/-- Its answer. -/
abbrev Op.Answer : Op → Type
  | .git .. => Result (Int × List UInt8 × List UInt8)
  | .gix call => call.Answer
  | .objectExists _ => Result Bool
  -- seconds since the epoch, if the clock is past it
  | .systemTime => Option Nat
  | .casUpdate .. => Result CasOutcome
  | .unpack _ => Result (Except String Unit)
  | .connectivity .. => Except String Unit
  | .refUpdate _ => Except String Unit

/-- A writer that returns an `α`. -/
abbrev Writer (α : Type) := Program Op Op.Answer (Result α)

/-- A repository, and all that answers for it. What the answers have to be like is in `SoundGit` and
`DocumentedGit`; here they are any functions of the state. -/
structure Site (σ : Type) where
  printable : Char → Bool
  repoId : RepoId
  /-- `run_git` with no input, by the environment it adds. -/
  runGit : List (String × String) → GitRunner σ
  gix : (call : GixCall) → σ → call.Answer × σ
  objectExists : σ → Oid → Result Bool
  systemTime : σ → Option Nat
  /-- What a push finds around it. -/
  packEnv : σ → PackEnv
  /-- The repository once a pack was unpacked, in whole or in part. -/
  unpacked : σ → ReceivePackRequest → σ

namespace Site

variable {σ : Type} (site : Site σ)

/-- The ref store, which is an `FsRefStore`. -/
def refs : RefStore σ := fsRefStore site.printable (site.runGit [])

/-- The answer of an operation, and the repository after it. -/
def handle : (op : Op) → σ → op.Answer × σ
  | .git command env, s => site.runGit env s site.repoId command.args
  | .gix call, s => site.gix call s
  | .objectExists oid, s => (site.objectExists s oid, s)
  | .systemTime, s => (site.systemTime s, s)
  | .casUpdate refName expected newSha, s =>
      site.refs.casUpdate s site.repoId refName expected newSha
  | .unpack req, s => (unpackOutcome (site.packEnv s) site.repoId.text req, site.unpacked s req)
  | .connectivity unpack req, s => (SmartHttp.connectivity (site.packEnv s) unpack req, s)
  | .refUpdate u, s => applyRefUpdate site.printable site.refs site.repoId.text s u

end Site

/-! ### Steps of a writer -/

/-- Settings of the server, and texts of the libraries it calls. -/
structure Config where
  printable : Char → Bool
  /-- The repository's directory. -/
  gitDir : String
  maxCommitBlobBytes : Nat
  /-- How the decoder's error for a text prints. -/
  base64Error : String → String

/-- The ref of a branch. -/
def branchRef (branch : String) : String := "refs/heads/" ++ branch

/-- Go on with a result that is there, or give up. -/
def lift {α : Type} (result : Result α) : Writer α := .ret result

/-- A call of `gix` whose error gets a text in front. -/
def askGix {α : Type} (call : GixCall) (answer : call.Answer → Except String α)
    (what : String) : Writer α :=
  .ask (.gix call) fun result =>
    match answer result with
    | .ok a => .ret (.ok a)
    | .error e => .ret (.error (.gixError (what ++ ": " ++ e)))

/-- `cas_update`, with the error of a lost race. -/
def casBranch (branch : String) (refName : RefName) (expected : Option Oid) (newSha : Oid) :
    Writer Unit :=
  .ask (.casUpdate refName expected newSha) fun outcome =>
    match outcome with
    | .error e => .ret (.error e)
    | .ok .updated => .ret (.ok ())
    | .ok (.conflict current) =>
        .ret (.error (.refConflict branch (expected.map Oid.text) (current.map Oid.text)))

end Writers
end Artifacts
