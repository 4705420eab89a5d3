import Artifacts.Storage.Disk

/-!
# Creating, forking and deleting repositories

The methods of `FsStorage`, each as a whole and without I/O errors.

The lemmas say of each method which repositories are there behind it, and what their alternates
files are; nothing else is needed of it later.  I/O errors are in `Faults`.
-/

namespace Artifacts
namespace Storage

/-- What `write_bare_repo_layout` leaves. -/
def bareRepo : RepoDir where
  alternates := none
  refs := []
  loose := []
  packed := []
  distinct := List.nodup_nil

theorem gitName_inj {a b : String} : a ++ ".git" = b ++ ".git" ↔ a = b := by
  constructor
  · intro h
    have hlist : a.toList ++ ".git".toList = b.toList ++ ".git".toList := by
      rw [← String.toList_append, ← String.toList_append, h]
    exact String.toList_inj.mp (List.append_cancel_right hlist)
  · intro h
    rw [h]

namespace Disk

/-- `repo_path(id).is_dir()`. -/
def isRepo (disk : Disk) (id : String) : Bool := (disk.repo id).isSome

/-- `repo_path(id).exists()`: a directory or anything else of that name. -/
def pathExists (disk : Disk) (id : String) : Bool := disk.names.contains (some (id ++ ".git"))

/-- Make the directory `<id>.git`. -/
def makeDir (disk : Disk) (id : String) (dir : RepoDir) : Disk where
  names := disk.names ++ [some (id ++ ".git")]
  repo := Function.update disk.repo id (some dir)
  listed := by
    intro id' h
    by_cases heq : id' = id
    · subst heq
      simp
    · rw [Function.update_of_ne heq] at h
      exact List.mem_append_left _ (disk.listed id' h)

/-- `remove_dir_all` of `<id>.git`. -/
def removeDir (disk : Disk) (id : String) : Disk where
  names := disk.names.filter fun name => name != some (id ++ ".git")
  repo := Function.update disk.repo id none
  listed := by
    intro id' h
    by_cases heq : id' = id
    · subst heq
      rw [Function.update_self] at h
      cases h
    · rw [Function.update_of_ne heq] at h
      refine List.mem_filter.mpr ⟨disk.listed id' h, ?_⟩
      rw [bne_iff_ne]
      intro hname
      exact heq (gitName_inj.mp (Option.some.inj hname))

/-- `create_dir_all` of `<id>.git` and the empty layout in it: a directory that is there
stays as it is. -/
def ensureDir (disk : Disk) (id : String) : Disk :=
  if disk.pathExists id then disk else disk.makeDir id bareRepo

/-- Write `objects/info/alternates` of a fork. -/
def writeAlternates (disk : Disk) (reposDir sourceId forkId : String) : Disk :=
  disk.modify forkId fun dir =>
    { dir with alternates := some (reposDir ++ "/" ++ sourceId ++ ".git/objects\n") }

theorem pathExists_of_isRepo {disk : Disk} {id : String} (h : disk.isRepo id = true) :
    disk.pathExists id = true :=
  List.contains_iff_mem.mpr (disk.listed id h)

@[simp] theorem isRepo_makeDir (disk : Disk) (id id' : String) (dir : RepoDir) :
    (disk.makeDir id dir).isRepo id' = (decide (id' = id) || disk.isRepo id') := by
  unfold isRepo makeDir
  dsimp only
  by_cases heq : id' = id
  · subst heq
    simp
  · rw [Function.update_of_ne heq, decide_eq_false heq, Bool.false_or]

@[simp] theorem isRepo_removeDir (disk : Disk) (id id' : String) :
    (disk.removeDir id).isRepo id' = (!decide (id' = id) && disk.isRepo id') := by
  unfold isRepo removeDir
  dsimp only
  by_cases heq : id' = id
  · subst heq
    simp
  · rw [Function.update_of_ne heq, decide_eq_false heq, Bool.not_false, Bool.true_and]

theorem isRepo_modify (disk : Disk) (id id' : String) (change : RepoDir → RepoDir) :
    (disk.modify id change).isRepo id' = disk.isRepo id' := by
  unfold isRepo modify
  dsimp only
  by_cases heq : id' = id
  · subst heq
    simp
  · rw [Function.update_of_ne heq]

@[simp] theorem pathExists_makeDir (disk : Disk) (id id' : String) (dir : RepoDir) :
    (disk.makeDir id dir).pathExists id' = (decide (id' = id) || disk.pathExists id') := by
  unfold pathExists makeDir
  dsimp only
  rw [Bool.eq_iff_iff, List.contains_iff_mem, List.mem_append, List.mem_singleton, Bool.or_eq_true,
    decide_eq_true_eq, List.contains_iff_mem, Option.some.injEq, gitName_inj, or_comm]

@[simp] theorem pathExists_removeDir (disk : Disk) (id id' : String) :
    (disk.removeDir id).pathExists id' = (!decide (id' = id) && disk.pathExists id') := by
  unfold pathExists removeDir
  dsimp only
  rw [Bool.eq_iff_iff, List.contains_iff_mem, List.mem_filter, Bool.and_eq_true, bne_iff_ne, ne_eq,
    Option.some.injEq, gitName_inj, Bool.not_eq_true', decide_eq_false_iff_not,
    List.contains_iff_mem, and_comm]

@[simp] theorem pathExists_modify (disk : Disk) (id id' : String) (change : RepoDir → RepoDir) :
    (disk.modify id change).pathExists id' = disk.pathExists id' := rfl

@[simp] theorem pathExists_copyRefs (disk : Disk) (source fork id : String) :
    (disk.copyRefs source fork).pathExists id = disk.pathExists id := by
  unfold copyRefs
  split
  · rfl
  · rfl

@[simp] theorem isRepo_writeAlternates (disk : Disk) (reposDir sourceId forkId id : String) :
    (disk.writeAlternates reposDir sourceId forkId).isRepo id = disk.isRepo id :=
  isRepo_modify disk forkId id _

@[simp] theorem pathExists_writeAlternates (disk : Disk) (reposDir sourceId forkId id : String) :
    (disk.writeAlternates reposDir sourceId forkId).pathExists id = disk.pathExists id := rfl

@[simp] theorem pathExists_ensureDir (disk : Disk) (id id' : String) :
    (disk.ensureDir id).pathExists id' = (decide (id' = id) || disk.pathExists id') := by
  unfold ensureDir
  split
  · rename_i h
    by_cases heq : id' = id
    · subst heq
      rw [h, Bool.or_true]
    · rw [decide_eq_false heq, Bool.false_or]
  · exact pathExists_makeDir disk id id' bareRepo

theorem isRepo_ensureDir {disk : Disk} {id : String} (hfree : disk.pathExists id = false)
    (id' : String) : (disk.ensureDir id).isRepo id' = (decide (id' = id) || disk.isRepo id') := by
  unfold ensureDir
  rw [hfree]
  exact isRepo_makeDir disk id id' bareRepo

/-- The first half of a fork, in its two steps. -/
theorem addFork_eq {disk : Disk} {sourceId forkId : String} (reposDir : String)
    (hsource : disk.isRepo sourceId = true) (hfree : disk.pathExists forkId = false) :
    disk.addFork reposDir sourceId forkId =
      (disk.ensureDir forkId).writeAlternates reposDir sourceId forkId := by
  have hfork : (disk.repo forkId).isNone = true := by
    rw [Option.isNone_iff_eq_none, ← Option.not_isSome_iff_eq_none]
    exact fun h => Bool.noConfusion ((pathExists_of_isRepo h).symm.trans hfree)
  unfold addFork ensureDir
  rw [if_pos (by rw [Bool.and_eq_true]; exact ⟨hsource, hfork⟩), hfree,
    if_neg Bool.false_ne_true]
  have hmade : (disk.makeDir forkId bareRepo).repo forkId = some bareRepo := Function.update_self ..
  ext1
  · rfl
  · unfold writeAlternates modify
    dsimp only
    rw [hmade]
    show _ = Function.update (Function.update disk.repo forkId (some bareRepo)) forkId _
    rw [Function.update_idem]
    rfl

theorem isRepo_copyRefs (disk : Disk) (source fork id : String) :
    (disk.copyRefs source fork).isRepo id = disk.isRepo id := by
  unfold copyRefs
  split
  · rfl
  · exact isRepo_modify disk fork id _

theorem isRepo_addFork {disk : Disk} {source fork : String} (reposDir id : String)
    (hsource : disk.isRepo source = true) (hfork : disk.isRepo fork = false) :
    (disk.addFork reposDir source fork).isRepo id = (decide (id = fork) || disk.isRepo id) := by
  unfold isRepo at hsource hfork ⊢
  unfold addFork
  rw [if_pos (by simpa [hsource] using hfork)]
  dsimp only
  by_cases heq : id = fork
  · subst heq
    simp
  · rw [Function.update_of_ne heq, decide_eq_false heq, Bool.false_or]

/-! ### Alternates files -/

/-- Only a repo has an alternates file. -/
theorem isRepo_of_alternates {disk : Disk} {id text : String}
    (h : disk.alternates id = some text) : disk.isRepo id = true := by
  unfold alternates at h
  unfold isRepo
  cases hrepo : disk.repo id with
  | none =>
      rw [hrepo] at h
      cases h
  | some dir => rfl

theorem alternates_modify {disk : Disk} {id : String} {change : RepoDir → RepoDir}
    (hkeep : ∀ dir, (change dir).alternates = dir.alternates) (id' : String) :
    (disk.modify id change).alternates id' = disk.alternates id' := by
  unfold alternates modify
  dsimp only
  by_cases heq : id' = id
  · subst heq
    rw [Function.update_self]
    cases disk.repo id' with
    | none => rfl
    | some dir => exact hkeep dir
  · rw [Function.update_of_ne heq]

theorem alternates_copyRefs (disk : Disk) (source fork id : String) :
    (disk.copyRefs source fork).alternates id = disk.alternates id := by
  unfold copyRefs
  split
  · rfl
  · refine alternates_modify ?_ id
    intro dir
    rfl

theorem alternates_removeDir (disk : Disk) (id id' : String) :
    (disk.removeDir id).alternates id' = if id' = id then none else disk.alternates id' := by
  unfold alternates removeDir
  dsimp only
  by_cases heq : id' = id
  · subst heq
    rw [Function.update_self, if_pos rfl]
    rfl
  · rw [Function.update_of_ne heq, if_neg heq]

/-- A new directory has no alternates file, and neither had the free path. -/
theorem alternates_ensureDir (disk : Disk) (id id' : String) :
    (disk.ensureDir id).alternates id' = disk.alternates id' := by
  unfold ensureDir
  split_ifs with hpath
  · rfl
  · unfold alternates makeDir
    dsimp only
    by_cases heq : id' = id
    · subst heq
      have hnone : disk.repo id' = none := by
        rw [← Option.not_isSome_iff_eq_none]
        exact fun hrepo => hpath (pathExists_of_isRepo hrepo)
      rw [Function.update_self, hnone]
      rfl
    · rw [Function.update_of_ne heq]

theorem alternates_writeAlternates {disk : Disk} {reposDir sourceId forkId : String}
    (hfork : disk.isRepo forkId = true) (id : String) :
    (disk.writeAlternates reposDir sourceId forkId).alternates id =
      if id = forkId then some (reposDir ++ "/" ++ sourceId ++ ".git/objects\n")
      else disk.alternates id := by
  unfold writeAlternates alternates modify
  dsimp only
  by_cases heq : id = forkId
  · subst heq
    obtain ⟨dir, hdir⟩ := Option.isSome_iff_exists.mp hfork
    rw [Function.update_self, hdir, if_pos rfl]
    rfl
  · rw [Function.update_of_ne heq, if_neg heq]

/-- A directory that is there stays there. -/
theorem isRepo_ensureDir_of_isRepo {disk : Disk} {id : String} (h : disk.isRepo id = true)
    (id' : String) : (disk.ensureDir id').isRepo id = true := by
  unfold ensureDir
  split_ifs
  · exact h
  · rw [isRepo_makeDir, h, Bool.or_true]

end Disk

namespace FsStorage

/-- `FsStorage::create`, where no call fails: the path is free, or the id is taken. -/
def create (disk : Disk) (id : RepoId) : Disk × Result Unit :=
  if disk.pathExists id.text then
    (disk, .error (.repoExists id.text))
  else
    (disk.makeDir id.text bareRepo, .ok ())

/-- `FsStorage::fork`, where no call fails. The fork borrows the objects of its source, and has a
copy of its refs. -/
def fork (reposDir : String) (disk : Disk) (sourceId forkId : RepoId) : Disk × Result Unit :=
  if !disk.isRepo sourceId.text then
    (disk, .error (.repoNotFound sourceId.text))
  else if disk.pathExists forkId.text then
    (disk, .error (.repoExists forkId.text))
  else
    ((disk.addFork reposDir sourceId.text forkId.text).copyRefs sourceId.text forkId.text, .ok ())

/-- `FsStorage::delete`. It does not ask who borrows from the repo; its callers have to. -/
def delete (disk : Disk) (id : RepoId) : Disk × Result Unit :=
  if disk.isRepo id.text then
    (disk.removeDir id.text, .ok ())
  else
    (disk, .error (.repoNotFound id.text))

/-! ### What is there afterwards -/

theorem isRepo_fork (reposDir : String) {disk : Disk} {sourceId forkId : RepoId}
    (hsource : disk.isRepo sourceId.text = true) (hfree : disk.pathExists forkId.text = false)
    (id' : String) :
    (fork reposDir disk sourceId forkId).1.isRepo id' =
      (decide (id' = forkId.text) || disk.isRepo id') := by
  have hfork : disk.isRepo forkId.text = false :=
    Bool.eq_false_iff.mpr fun h => Bool.noConfusion ((Disk.pathExists_of_isRepo h).symm.trans hfree)
  unfold fork
  rw [hsource, hfree]
  exact (Disk.isRepo_copyRefs _ _ _ id').trans (Disk.isRepo_addFork reposDir id' hsource hfork)

theorem isRepo_delete (disk : Disk) (id : RepoId) (id' : String) :
    (delete disk id).1.isRepo id' = (!decide (id' = id.text) && disk.isRepo id') := by
  unfold delete
  split
  · exact Disk.isRepo_removeDir disk id.text id'
  · rename_i h
    by_cases heq : id' = id.text
    · subst heq
      rw [Bool.eq_false_iff.mpr h, Bool.and_false]
    · rw [decide_eq_false heq, Bool.not_false, Bool.true_and]

end FsStorage
end Storage
end Artifacts
