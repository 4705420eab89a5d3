import Artifacts.Ids
import Mathlib.Data.List.Nodup
import Mathlib.Logic.Function.Basic

/-!
# Repositories on disk

A repository is the directory `<id>.git` under the repos directory.  Of its
content the model keeps the alternates file, what the refs and `HEAD` resolve to,
the loose objects and the ids of the packed ones.  `fsObjectStore` is the
filesystem implementation of `ObjectStore`, for the two calls the collector
makes.

`listed` is a field of a disk: what is a repository is also found by listing.  The content of packs
and of trees is not kept, only which ids there are.
-/

namespace Artifacts
namespace Storage

/-- One row of `ObjectStore::list_loose`. -/
structure LooseInfo where
  oid : Oid
  size : Nat
  createdSecs : Int64
  deriving DecidableEq

/-- The content of a repository directory.  Loose objects are files named by
their ids, so no id is listed twice. -/
structure RepoDir where
  /-- `objects/info/alternates`, if it is there and is UTF-8. -/
  alternates : Option String
  /-- Refs, and `HEAD` if it resolves, with the object each of them names. -/
  refs : List (String × Oid)
  loose : List LooseInfo
  packed : List Oid
  distinct : (loose.map LooseInfo.oid).Nodup

namespace RepoDir

/-- The objects that refs and `HEAD` name. -/
def tips (dir : RepoDir) : List Oid := dir.refs.map Prod.snd

/-- Unlink the loose objects that fail a test. -/
def keepLoose (dir : RepoDir) (keep : LooseInfo → Bool) : RepoDir :=
  { dir with
    loose := dir.loose.filter keep
    distinct := dir.distinct.sublist (List.filter_sublist.map _) }

/-- Write a loose object, or write it again. -/
def writeLoose (dir : RepoDir) (info : LooseInfo) : RepoDir :=
  { dir with
    loose := info :: dir.loose.filter fun other => other.oid != info.oid
    distinct := by
      rw [List.map_cons, List.nodup_cons]
      refine ⟨?_, dir.distinct.sublist (List.filter_sublist.map _)⟩
      intro hmem
      obtain ⟨other, hother, hoid⟩ := List.mem_map.mp hmem
      simpa [hoid] using (List.mem_filter.mp hother).2 }

/-- Remove a ref. -/
def deleteRef (dir : RepoDir) (name : String) : RepoDir :=
  { dir with refs := dir.refs.filter fun ref => ref.1 != name }

/-- Create a ref or move it. -/
def updateRef (dir : RepoDir) (name : String) (oid : Oid) : RepoDir :=
  { dir with refs := (name, oid) :: (dir.deleteRef name).refs }

@[ext] theorem ext {a b : RepoDir} (halternates : a.alternates = b.alternates)
    (hrefs : a.refs = b.refs) (hloose : a.loose = b.loose) (hpacked : a.packed = b.packed) :
    a = b := by
  cases a
  cases b
  cases halternates
  cases hrefs
  cases hloose
  cases hpacked
  rfl

@[simp] theorem keepLoose_loose (dir : RepoDir) (keep : LooseInfo → Bool) :
    (dir.keepLoose keep).loose = dir.loose.filter keep := rfl

@[simp] theorem keepLoose_keepLoose (dir : RepoDir) (keep keep' : LooseInfo → Bool) :
    (dir.keepLoose keep).keepLoose keep' = dir.keepLoose fun info => keep info && keep' info := by
  ext1
  · rfl
  · rfl
  · simp only [keepLoose_loose, List.filter_filter, Bool.and_comm]
  · rfl

/-- Keeping everything changes nothing. -/
theorem keepLoose_eq_self (dir : RepoDir) {keep : LooseInfo → Bool}
    (h : ∀ info ∈ dir.loose, keep info = true) : dir.keepLoose keep = dir := by
  ext1
  · rfl
  · rfl
  · exact List.filter_eq_self.mpr h
  · rfl

/-- Two loose objects of one id are the same. -/
theorem loose_ext {dir : RepoDir} {a b : LooseInfo} (ha : a ∈ dir.loose) (hb : b ∈ dir.loose)
    (h : a.oid = b.oid) : a = b :=
  List.inj_on_of_nodup_map dir.distinct ha hb h

end RepoDir

/-- The repos directory: the names that `read_dir` yields (`none` for one that is
not UTF-8), and the content of the directory `<id>.git`, by id. -/
structure Disk where
  names : List (Option String)
  repo : String → Option RepoDir
  listed : ∀ id, (repo id).isSome = true → some (id ++ ".git") ∈ names

namespace Disk

/-- The alternates file of a repo. -/
def alternates (disk : Disk) (id : String) : Option String :=
  (disk.repo id).bind RepoDir.alternates

/-- Unlink the loose objects of one repo that fail a test. -/
def keepLoose (disk : Disk) (id : String) (keep : LooseInfo → Bool) : Disk where
  names := disk.names
  repo := Function.update disk.repo id ((disk.repo id).map fun dir => dir.keepLoose keep)
  listed := by
    intro id' h
    apply disk.listed id'
    by_cases heq : id' = id
    · subst heq
      simpa using h
    · rwa [Function.update_of_ne heq] at h

/-- Change the content of one repo. -/
def modify (disk : Disk) (id : String) (change : RepoDir → RepoDir) : Disk where
  names := disk.names
  repo := Function.update disk.repo id ((disk.repo id).map change)
  listed := by
    intro id' h
    apply disk.listed id'
    by_cases heq : id' = id
    · subst heq
      simpa using h
    · rwa [Function.update_of_ne heq] at h

/-- The first half of a fork: a directory with an alternates file. -/
def addFork (disk : Disk) (reposDir source fork : String) : Disk :=
  if (disk.repo source).isSome && (disk.repo fork).isNone then
    { names := disk.names ++ [some (fork ++ ".git")]
      repo := Function.update disk.repo fork (some
        { alternates := some (reposDir ++ "/" ++ source ++ ".git/objects\n")
          refs := []
          loose := []
          packed := []
          distinct := List.nodup_nil })
      listed := by
        intro id h
        by_cases heq : id = fork
        · subst heq
          simp
        · rw [Function.update_of_ne heq] at h
          exact List.mem_append_left _ (disk.listed id h) }
  else
    disk

/-- The second half of a fork: a snapshot of the refs of the source. -/
def copyRefs (disk : Disk) (source fork : String) : Disk :=
  match disk.repo source with
  | none => disk
  | some dir => disk.modify fork fun new => { new with refs := dir.refs }

theorem keepLoose_repo_self (disk : Disk) (id : String) (keep : LooseInfo → Bool) :
    (disk.keepLoose id keep).repo id = (disk.repo id).map fun dir => dir.keepLoose keep :=
  Function.update_self ..

theorem keepLoose_repo_of_ne (disk : Disk) {id id' : String} (keep : LooseInfo → Bool)
    (h : id' ≠ id) : (disk.keepLoose id keep).repo id' = disk.repo id' :=
  Function.update_of_ne h ..

@[ext] theorem ext {a b : Disk} (hnames : a.names = b.names) (hrepo : a.repo = b.repo) :
    a = b := by
  cases a
  cases b
  cases hnames
  cases hrepo
  rfl

theorem keepLoose_eq_self {disk : Disk} {id : String} {keep : LooseInfo → Bool}
    (h : ∀ dir, disk.repo id = some dir → ∀ info ∈ dir.loose, keep info = true) :
    disk.keepLoose id keep = disk := by
  ext1
  · rfl
  · refine Function.update_eq_self_iff.mpr ?_
    cases hdir : disk.repo id with
    | none => rfl
    | some dir => rw [Option.map_some, dir.keepLoose_eq_self (h dir hdir)]

@[simp] theorem keepLoose_keepLoose (disk : Disk) (id : String) (keep keep' : LooseInfo → Bool) :
    (disk.keepLoose id keep).keepLoose id keep' =
      disk.keepLoose id fun info => keep info && keep' info := by
  ext1
  · rfl
  · simp only [keepLoose, Function.update_self, Function.update_idem, Option.map_map]
    congr 2
    funext dir
    exact dir.keepLoose_keepLoose keep keep'

end Disk

/-- The `ObjectStore` calls of the collector. -/
structure ObjectStore where
  listLoose : Disk → RepoId → Result (List LooseInfo)
  deleteLoose : Disk → RepoId → Oid → Disk × Result Bool

/-- Is the loose object there? -/
def Disk.hasLoose (disk : Disk) (id : String) (oid : Oid) : Bool :=
  match disk.repo id with
  | none => false
  | some dir => dir.loose.any fun info => info.oid == oid

/-- `FsObjectStore`, without I/O errors: a missing directory lists nothing, a
missing file is `Ok(false)`. -/
def fsObjectStore : ObjectStore where
  listLoose disk id :=
    match disk.repo id.text with
    | none => .ok []
    | some dir => .ok dir.loose
  deleteLoose disk id oid :=
    if disk.hasLoose id.text oid then
      (disk.keepLoose id.text fun info => info.oid != oid, .ok true)
    else
      (disk, .ok false)

/-- **Specification of `delete_loose`**, in both of its outcomes. -/
theorem fsObjectStore_deleteLoose (disk : Disk) (id : RepoId) (oid : Oid) :
    fsObjectStore.deleteLoose disk id oid =
      (disk.keepLoose id.text fun info => info.oid != oid,
        .ok (disk.hasLoose id.text oid)) := by
  simp only [fsObjectStore]
  split_ifs with h
  · rw [h]
  · have habsent : disk.keepLoose id.text (fun info => info.oid != oid) = disk := by
      refine Disk.keepLoose_eq_self fun dir hdir info hinfo => ?_
      have hno : (dir.loose.any fun info => info.oid == oid) = false := by
        simpa [Disk.hasLoose, hdir] using h
      simpa using List.any_eq_false.mp hno info hinfo
    rw [habsent, Bool.eq_false_iff.mpr h]

end Storage
end Artifacts
