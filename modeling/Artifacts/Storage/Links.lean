import Artifacts.Storage.Lifecycle
import Artifacts.Storage.Alternates

/-!
# What an alternates file names

An alternates file names a repo whether or not that repo is there; `resolve` answers
only while it is.  The cache in front of `resolve` answers the same, as long as a file
that is written anew gets an mtime that no entry for its repo has.

`Names` is the link on disk, `source` the one that `resolve` follows.  `LinksResolve` elsewhere says
that what a fork writes names its source.
-/

namespace Artifacts
namespace Storage

open Rust

/-- The filesystem around the repos directory: its own real path, and the real path of
any other. -/
structure FileSystem where
  root : List String
  real : String → List String

namespace FileSystem

/-- The repo whose objects directory a real path is. -/
def objectsOf (fs : FileSystem) (path : List String) : Option String :=
  match path.dropPrefix? fs.root with
  | some [first, second] => if second ≠ "objects" then none else stripSuffix first ".git"
  | _ => none

/-- The repo that an alternates file names. -/
def target (fs : FileSystem) (alternates : Option String) : Option String :=
  resolve ⟨some fs.root, fun path => some (fs.real path)⟩ alternates

/-- The two `canonicalize` calls on a disk: the second one fails if the repo is not there. -/
def paths (fs : FileSystem) (disk : Disk) : Paths where
  canonRoot := some fs.root
  canonicalize path :=
    match fs.objectsOf (fs.real path) with
    | some id => if disk.isRepo id then some (fs.real path) else none
    | none => some (fs.real path)

/-- The same calls, when `there` says which repos are. -/
def pathsWhere (fs : FileSystem) (there : String → Bool) : Paths where
  canonRoot := some fs.root
  canonicalize path :=
    match fs.objectsOf (fs.real path) with
    | some id => if there id then some (fs.real path) else none
    | none => some (fs.real path)

/-- The alternates file of one repo names another. -/
def Names (fs : FileSystem) (disk : Disk) (child source : String) : Prop :=
  fs.target (disk.alternates child) = some source

instance (fs : FileSystem) (disk : Disk) (child source : String) :
    Decidable (fs.Names disk child source) :=
  inferInstanceAs (Decidable (_ = _))

/-- What `resolve` answers for a repo. -/
def source (fs : FileSystem) (disk : Disk) (id : String) : Option String :=
  resolve (fs.paths disk) (disk.alternates id)

end FileSystem

/-- The mtime of an alternates file, if it is there. -/
def statAlternates (disk : Disk) (mtimes : String → Nat) (id : String) : Option Nat :=
  (disk.alternates id).map fun _ => mtimes id

/-- Each cache entry that still counts, for its mtime is that of the file, says what `resolve` says.
Nothing is asked of an entry that the next lookup replaces. -/
structure CacheFresh (fs : FileSystem) (disk : Disk) (mtimes : String → Nat)
    (entries : String → Option CacheEntry) : Prop where
  fresh : ∀ id e, entries id = some e → e.mtime = statAlternates disk mtimes id →
    e.sourceId = fs.source disk id
  /-- An entry made when there was no file has no source. -/
  absent : ∀ id e, entries id = some e → e.mtime = none → e.sourceId = none

section
variable {fs : FileSystem} {disk : Disk} {mtimes : String → Nat}
  {entries : String → Option CacheEntry}

/-- `resolve` finds the named repo, if it is there. -/
theorem FileSystem.resolve_eq (fs : FileSystem) (there : String → Bool)
    (alternates : Option String) :
    resolve (fs.pathsWhere there) alternates = (fs.target alternates).filter there := by
  unfold FileSystem.target FileSystem.pathsWhere FileSystem.objectsOf resolve
  cases alternates with
  | none => rfl
  | some text =>
      dsimp only
      by_cases hempty : (trim text).isEmpty = true
      · rw [if_pos hempty, if_pos hempty]
        rfl
      · rw [if_neg hempty, if_neg hempty]
        cases hdrop : (fs.real (trim text)).dropPrefix? fs.root with
        | none =>
            dsimp only
            rw [hdrop]
            rfl
        | some rest =>
            match rest with
            | [] => simp [hdrop]
            | [_] => simp [hdrop]
            | _ :: _ :: _ :: _ => simp [hdrop]
            | [first, second] =>
                dsimp only
                by_cases hsecond : second = "objects"
                · subst hsecond
                  cases hstrip : stripSuffix first ".git" with
                  | none =>
                      simp [hdrop, hstrip]
                  | some sourceId =>
                      cases hrepo : there sourceId <;>
                        by_cases hvalid : validRepoId sourceId = true <;>
                        simp [hdrop, hstrip, hrepo, hvalid, Option.filter]
                · simp [hdrop, hsecond]

theorem FileSystem.source_eq (fs : FileSystem) (disk : Disk) (id : String) :
    fs.source disk id = (fs.target (disk.alternates id)).filter disk.isRepo :=
  fs.resolve_eq disk.isRepo (disk.alternates id)

theorem FileSystem.source_eq_some {id source : String} :
    fs.source disk id = some source ↔ fs.Names disk id source ∧ disk.isRepo source = true := by
  rw [FileSystem.source_eq, Option.filter_eq_some_iff]
  exact Iff.rfl

/-- **Specification of `AlternatesCache::lookup`**: a cache that is fresh answers what
`resolve` answers, and stays fresh. -/
theorem cacheLookup_fresh (h : CacheFresh fs disk mtimes entries) (id : String) :
    (cacheLookup entries (statAlternates disk mtimes id) (fs.source disk id) id).1 =
        fs.source disk id ∧
      CacheFresh fs disk mtimes
        (cacheLookup entries (statAlternates disk mtimes id) (fs.source disk id) id).2 := by
  have hmissed : CacheFresh fs disk mtimes (Function.update entries id
      (some ⟨statAlternates disk mtimes id, fs.source disk id⟩)) := by
    constructor
    · intro id' e he hmtime
      by_cases heq : id' = id
      · subst heq
        rw [Function.update_self] at he
        cases he
        rfl
      · rw [Function.update_of_ne heq] at he
        exact h.fresh id' e he hmtime
    · intro id' e he hnone
      by_cases heq : id' = id
      · subst heq
        rw [Function.update_self] at he
        cases he
        -- without a file there is nothing to resolve
        change (disk.alternates id').map _ = none at hnone
        change resolve (fs.paths disk) (disk.alternates id') = none
        rw [Option.map_eq_none_iff.mp hnone]
        rfl
      · rw [Function.update_of_ne heq] at he
        exact h.absent id' e he hnone
  unfold cacheLookup
  dsimp only
  split
  · rename_i e he
    split_ifs with hmtime
    · exact ⟨h.fresh id e he hmtime, h⟩
    · exact ⟨rfl, hmissed⟩
  · exact ⟨rfl, hmissed⟩

/-- Forgetting an entry keeps the cache fresh. -/
theorem CacheFresh.invalidate (h : CacheFresh fs disk mtimes entries) (id : String) :
    CacheFresh fs disk mtimes (Function.update entries id none) := by
  have hold : ∀ id' e, Function.update entries id none id' = some e → entries id' = some e := by
    intro id' e he
    by_cases heq : id' = id
    · subst heq
      rw [Function.update_self] at he
      cases he
    · rwa [Function.update_of_ne heq] at he
  exact ⟨fun id' e he => h.fresh id' e (hold id' e he),
    fun id' e he => h.absent id' e (hold id' e he)⟩

end

end Storage
end Artifacts
