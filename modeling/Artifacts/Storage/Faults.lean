import Artifacts.Storage.Files

/-!
# Creating and forking, call by call

`create` and `fork` of `FsStorage` as programs of file-system calls, each of which can fail.
`create` removes what it has made when its layout fails, and so a failure leaves the id free.

`create_clean` is the half of the result that holds without a condition.  What a failed fork leaves
behind is in `ForkFaults`.
-/

namespace Artifacts
namespace Storage

open Foundation Foundation.Program Rust

/-- A program of storage. -/
abbrev Calls (α : Type) := Program FsOp FsAns (Result α)

/-! ### The programs -/

/-- `<id>.git`. -/
def dirName (id : RepoId) : String := id.text ++ ".git"

/-- The last try of `create_dir_all`: it does not matter who has made the directory. -/
def orIsDir (path : Path) (e : IoError) : Calls Unit :=
  .ask (.isDir path) fun there => if there then .ret (.ok ()) else .ret (.error (.io e.text))

/-- The second `mkdir` of a directory, when its parents are made. -/
def mkdirAgain (path : Path) : Calls Unit :=
  .ask (.mkdir true path) fun made =>
  match made with
  | .ok () => .ret (.ok ())
  | .error e => orIsDir path e

/-- `std::fs::create_dir_all`: the parents are made when the directory cannot be. -/
def createDirAll : Path → Calls Unit
  | [] => .ret (.ok ())
  | name :: parent =>
      .ask (.mkdir false (name :: parent)) fun made =>
      match made with
      | .ok () => .ret (.ok ())
      | .error .notFound => (createDirAll parent).andThen fun _ => mkdirAgain (name :: parent)
      | .error e => orIsDir (name :: parent) e

/-- `std::fs::write`: the file is made or cut, and then filled. A fault in between leaves it empty.
-/
def writeFile (path : Path) (content : List UInt8) : Calls Unit :=
  .ask (.createFile path) fun made =>
  match made with
  | .error e => .ret (.error (.io e.text))
  | .ok () =>
      .ask (.writeAll path content) fun written =>
      match written with
      | .error e => .ret (.error (.io e.text))
      | .ok () => .ret (.ok ())

def configText : String :=
  "[core]\n\trepositoryformatversion = 0\n\tbare = true\n" ++
    "[http]\n\treceivepack = true\n\tuploadpack = true\n"

/-- `write_bare_repo_layout`, call by call. The first call that fails ends it, and what was made
before stays. -/
def writeBareRepoLayout (top : String) : Calls Unit :=
  (createDirAll ["heads", "refs", top]).andThen fun _ =>
  (createDirAll ["tags", "refs", top]).andThen fun _ =>
  (createDirAll ["info", "objects", top]).andThen fun _ =>
  (createDirAll ["pack", "objects", top]).andThen fun _ =>
  (writeFile ["HEAD", top] (asBytes "ref: refs/heads/main\n")).andThen fun _ =>
  writeFile ["config", top] (asBytes configText)

/-- `FsStorage::create`. If the layout cannot be written, the directory is removed again, and the
error of the removal is dropped. -/
def createCalls (id : RepoId) : Calls Unit :=
  .ask (.exists [dirName id]) fun there =>
  if there then .ret (.error (.repoExists id.text))
  else
    (writeBareRepoLayout (dirName id)).bind fun result =>
    match result with
    | .ok () => .ret (.ok ())
    | .error e => .ask (.removeDirAll [dirName id]) fun _ => .ret (.error e)

/-- `snapshot_refs_to_packed`: the refs of the source as gix lists them, written to the fork in one
file. Without refs no file is written. -/
def snapshotRefs (reposDir source top : String) : Calls Unit :=
  .ask (.references [source]) fun references =>
  match snapshotRefsToPacked (reposDir ++ "/" ++ source) references with
  | .error e => .ret (.error e)
  | .ok none => .ret (.ok ())
  | .ok (some packed) => writeFile ["packed-refs", top] (asBytes packed)

/-- The `HEAD` of the source. -/
def copyHead (source top : String) : Calls Unit :=
  .ask (.read ["HEAD", source]) fun head =>
  match head with
  | .error e => .ret (.error (.io e.text))
  | .ok head => writeFile ["HEAD", top] head

def alternatesText (reposDir source : String) : String := reposDir ++ "/" ++ source ++ "/objects\n"

/-- Steps 1 to 5 of a fork, behind its first `create_dir_all`. -/
def fillFork (reposDir source top : String) : Calls Unit :=
  (createDirAll ["pack", "objects", top]).andThen fun _ =>
  (createDirAll ["heads", "refs", top]).andThen fun _ =>
  (createDirAll ["tags", "refs", top]).andThen fun _ =>
  (writeFile ["alternates", "info", "objects", top]
    (asBytes (alternatesText reposDir source))).andThen fun _ =>
  (copyHead source top).andThen fun _ =>
  (writeFile ["config", top] (asBytes configText)).andThen fun _ =>
  snapshotRefs reposDir source top

/-- `FsStorage::fork`. Unlike `create` it removes nothing when a later call fails. -/
def forkCalls (reposDir : String) (sourceId forkId : RepoId) : Calls Unit :=
  .ask (.isDir [dirName sourceId]) fun there =>
  if !there then .ret (.error (.repoNotFound sourceId.text))
  else
    .ask (.exists [dirName forkId]) fun taken =>
    if taken then .ret (.error (.repoExists forkId.text))
    else
      (createDirAll ["info", "objects", dirName forkId]).andThen fun _ =>
      fillFork reposDir (dirName sourceId) (dirName forkId)

/-! ### What a failure leaves -/

/-- A later call with the id does not find it taken, whatever else may go wrong in that call. -/
structure Reusable (files : Files) (id : RepoId) : Prop where
  free : files.node [dirName id] = none
  create : ∀ env : Surroundings, ∀ taken,
    ((createCalls id).run env.answer files).1 ≠ .error (.repoExists taken)
  fork : ∀ (env : Surroundings) (reposDir : String) (sourceId : RepoId), ∀ taken,
    ((forkCalls reposDir sourceId id).run env.answer files).1 ≠ .error (.repoExists taken)

/-- A failure other than `RepoExists` leaves the id free, so that the same request can be made
again. -/
def CleanFailure (id : RepoId) (outcome : Result Unit × Files) : Prop :=
  ∀ e, outcome.1 = .error e → (∀ taken, e ≠ .repoExists taken) → Reusable outcome.2 id

/-! ### No failure but one says that the id is taken -/

def NotTaken (result : Result Unit) : Prop := ∀ taken, result ≠ .error (.repoExists taken)

theorem notTaken_io (e : IoError) : NotTaken (.error (.io e.text)) := by
  intro taken h
  cases h

theorem orIsDir_returns (path : Path) (e : IoError) : (orIsDir path e).Returns NotTaken := by
  intro there
  cases there with
  | false => exact notTaken_io e
  | true => exact nofun

theorem mkdirAgain_returns (path : Path) : (mkdirAgain path).Returns NotTaken := by
  intro made
  cases made with
  | ok => exact nofun
  | error e => exact orIsDir_returns _ e

theorem createDirAll_returns (path : Path) : (createDirAll path).Returns NotTaken := by
  induction path with
  | nil => exact nofun
  | cons name parent ih =>
      intro made
      match made with
      | .ok () => exact nofun
      | .error .notFound =>
          exact ih.andThen (fun e he => he) fun _ => mkdirAgain_returns _
      | .error .alreadyExists => exact orIsDir_returns _ _
      | .error .notADirectory => exact orIsDir_returns _ _
      | .error .isADirectory => exact orIsDir_returns _ _
      | .error (.other cause) => exact orIsDir_returns _ _

theorem writeFile_returns (path : Path) (content : List UInt8) :
    (writeFile path content).Returns NotTaken := by
  intro made
  cases made with
  | error e => exact notTaken_io e
  | ok =>
      intro written
      cases written with
      | error e => exact notTaken_io e
      | ok => exact nofun

theorem andThen_returns {p : Calls Unit} {f : Unit → Calls Unit} (hp : p.Returns NotTaken)
    (hf : (f ()).Returns NotTaken) : (p.andThen f).Returns NotTaken :=
  Returns.andThen hp (fun _ he => he) fun _ => hf

theorem writeBareRepoLayout_returns (top : String) :
    (writeBareRepoLayout top).Returns NotTaken := by
  apply andThen_returns (createDirAll_returns _)
  apply andThen_returns (createDirAll_returns _)
  apply andThen_returns (createDirAll_returns _)
  apply andThen_returns (createDirAll_returns _)
  apply andThen_returns (writeFile_returns _ _)
  exact writeFile_returns _ _

theorem snapshotRefs_returns (reposDir source top : String) :
    (snapshotRefs reposDir source top).Returns NotTaken := by
  intro references
  cases references with
  | openFailed cause => exact nofun
  | referencesFailed cause => exact nofun
  | allFailed cause => exact nofun
  | all items =>
      dsimp only [snapshotRefsToPacked]
      split_ifs
      · exact nofun
      · exact writeFile_returns _ _

theorem copyHead_returns (source top : String) : (copyHead source top).Returns NotTaken := by
  intro head
  cases head with
  | error e => exact notTaken_io e
  | ok head => exact writeFile_returns _ head

theorem fillFork_returns (reposDir source top : String) :
    (fillFork reposDir source top).Returns NotTaken := by
  apply andThen_returns (createDirAll_returns _)
  apply andThen_returns (createDirAll_returns _)
  apply andThen_returns (createDirAll_returns _)
  apply andThen_returns (writeFile_returns _ _)
  apply andThen_returns (copyHead_returns _ _)
  apply andThen_returns (writeFile_returns _ _)
  exact snapshotRefs_returns reposDir source top

/-- An id whose path is free is not found taken. -/
theorem reusable_of_free {files : Files} {id : RepoId} (h : files.node [dirName id] = none) :
    Reusable files id := by
  have hfree : ∀ env : Surroundings, (env.answer (.exists [dirName id]) files).1 = false := by
    intro env
    simp [Surroundings.answer, h]
  constructor
  · exact h
  · intro env
    rw [createCalls, run_ask, hfree env, if_neg Bool.false_ne_true]
    apply Returns.run (P := NotTaken)
    apply (writeBareRepoLayout_returns _).bind
    intro result hresult
    cases result with
    | ok => exact nofun
    | error e => exact fun _ => hresult
  · intro env reposDir sourceId
    rw [forkCalls, run_ask]
    split_ifs
    · exact nofun
    · rw [run_ask]
      have hstill : (env.answer (.exists [dirName id])
          (env.answer (.isDir [dirName sourceId]) files).2).1 = false := hfree env
      rw [hstill, if_neg Bool.false_ne_true]
      apply Returns.run (P := NotTaken)
      apply andThen_returns (createDirAll_returns _)
      exact fillFork_returns reposDir _ _

/-! ### Creating -/

/-- A removal leaves nothing. -/
theorem node_removeDirAll (files : Files) (name : String) :
    (files.removeDirAll [name]).2.node [name] = none := by
  by_cases h : files.node [name] = none
  · simp [Files.removeDirAll, h]
  · simp [Files.removeDirAll, h, Files.removeTree]

/-- **A failed create leaves the id free**, whatever fails. -/
theorem create_clean (env : Surroundings) (files : Files) (id : RepoId) :
    CleanFailure id ((createCalls id).run env.answer files) := by
  intro e herror htaken
  apply reusable_of_free
  rw [createCalls, run_ask] at herror ⊢
  split_ifs at herror ⊢ with hthere
  · cases herror
    exact absurd rfl (htaken id.text)
  · rw [run_bind] at herror ⊢
    cases hlayout : (writeBareRepoLayout (dirName id)).run env.answer
        (env.answer (.exists [dirName id]) files).2 with
    | mk result files' =>
        rw [hlayout] at herror
        cases result with
        | ok => cases herror
        | error e' => exact node_removeDirAll files' (dirName id)

end Storage
end Artifacts
