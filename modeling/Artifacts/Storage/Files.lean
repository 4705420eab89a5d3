import Artifacts.Foundation.Programs
import Artifacts.Storage.PackedRefs

/-!
# Files under the repos directory

A tree of directories and files, and the system calls that storage makes on it, one by one.
`Files.answer` is what a call does; a call may also fail for a reason of its own (no space,
no permission, a bad disk), and then it does nothing.

Rights, links and times are not part of a node.  A path is a list of names, the innermost first,
so that a directory is a suffix of what is in it.
-/

namespace Artifacts
namespace Storage

open Foundation Rust

/-- The names on the way up to the repos directory. -/
abbrev Path := List String

inductive Node where
  | dir
  | file (content : List UInt8)
  deriving DecidableEq

inductive IoError where
  | notFound
  | alreadyExists
  | notADirectory
  | isADirectory
  | other (cause : String)
  deriving DecidableEq

/-- The `Display` of a `std::io::Error`. -/
def IoError.text : IoError → String
  | .notFound => "No such file or directory (os error 2)"
  | .alreadyExists => "File exists (os error 17)"
  | .notADirectory => "Not a directory (os error 20)"
  | .isADirectory => "Is a directory (os error 21)"
  | .other cause => cause

/-- The repos directory is there, and so is the directory of whatever is there. -/
structure Files where
  node : Path → Option Node
  root : node [] = some .dir
  rooted : ∀ name path, node (name :: path) ≠ none → node path = some .dir

namespace Files

/-- A new directory, or a file that is new or written anew. -/
def put (files : Files) (name : String) (path : Path) (new : Node)
    (hdir : files.node path = some .dir)
    (hkeep : files.node (name :: path) = some .dir → new = .dir) : Files where
  node := Function.update files.node (name :: path) (some new)
  root := by
    rw [Function.update_of_ne (List.cons_ne_nil name path).symm]
    exact files.root
  rooted := by
    intro name' path' h
    by_cases hself : path' = name :: path
    · -- something is in what was put, so that was a directory
      subst hself
      rw [Function.update_of_ne (List.cons_ne_self name' (name :: path))] at h
      rw [Function.update_self, hkeep (files.rooted _ _ h)]
    · rw [Function.update_of_ne hself]
      by_cases hnew : name' :: path' = name :: path
      · obtain ⟨-, rfl⟩ := List.cons.inj hnew
        exact hdir
      · rw [Function.update_of_ne hnew] at h
        exact files.rooted _ _ h

/-- What is left without a path and what is below it. -/
def removeTree (files : Files) (name : String) (path : Path) : Files where
  node q := if (name :: path) <:+ q then none else files.node q
  root := by
    rw [if_neg (by simp)]
    exact files.root
  rooted := by
    intro name' path' h
    by_cases hbelow : (name :: path) <:+ name' :: path'
    · rw [if_pos hbelow] at h
      exact absurd rfl h
    · rw [if_neg hbelow] at h
      have hparent : ¬ (name :: path) <:+ path' := fun hp =>
        hbelow (hp.trans (List.suffix_cons _ _))
      rw [if_neg hparent]
      exact files.rooted _ _ h

/-- `mkdir` of one directory, whose parent has to be there. -/
def mkdir (files : Files) : Path → Except IoError Unit × Files
  | [] => (.error .alreadyExists, files)
  | name :: path =>
      if files.node (name :: path) = none then
        if hdir : files.node path = some .dir then
          (.ok (), files.put name path .dir hdir fun _ => rfl)
        else if files.node path = none then (.error .notFound, files)
        else (.error .notADirectory, files)
      else (.error .alreadyExists, files)

/-- `File::create`: the file is made, or cut to nothing. -/
def createFile (files : Files) : Path → Except IoError Unit × Files
  | [] => (.error .isADirectory, files)
  | name :: path =>
      if hdir : files.node path = some .dir then
        if hfile : files.node (name :: path) = some .dir then (.error .isADirectory, files)
        else (.ok (), files.put name path (.file []) hdir fun h => absurd h hfile)
      else if files.node path = none then (.error .notFound, files)
      else (.error .notADirectory, files)

/-- `write_all` to a file that was just created. -/
def writeAll (files : Files) (content : List UInt8) : Path → Except IoError Unit × Files
  | [] => (.error .isADirectory, files)
  | name :: path =>
      if hdir : files.node path = some .dir then
        if hfile : files.node (name :: path) = some .dir then (.error .isADirectory, files)
        else (.ok (), files.put name path (.file content) hdir fun h => absurd h hfile)
      else (.error .notFound, files)

/-- `std::fs::read`. -/
def read (files : Files) (path : Path) : Except IoError (List UInt8) :=
  match files.node path with
  | some (.file content) => .ok content
  | some .dir => .error .isADirectory
  | none => .error .notFound

/-- `remove_dir_all`: the directory with all that is in it, as one call that fails or goes through.
-/
def removeDirAll (files : Files) : Path → Except IoError Unit × Files
  | [] => (.error (.other "Device or resource busy (os error 16)"), files)
  | name :: path =>
      if files.node (name :: path) = none then (.error .notFound, files)
      else (.ok (), files.removeTree name path)

end Files

/-! ### Calls -/

/-- A call of storage.  `create_dir_all` may try a directory again, and `references` are
what gix lists for a repository. -/
inductive FsOp where
  | exists (path : Path)
  | isDir (path : Path)
  | mkdir (again : Bool) (path : Path)
  | createFile (path : Path)
  | writeAll (path : Path) (content : List UInt8)
  | read (path : Path)
  | references (path : Path)
  | removeDirAll (path : Path)

abbrev FsAns : FsOp → Type
  | .exists _ => Bool
  | .isDir _ => Bool
  | .mkdir _ _ => Except IoError Unit
  | .createFile _ => Except IoError Unit
  | .writeAll _ _ => Except IoError Unit
  | .read _ => Except IoError (List UInt8)
  | .references _ => GixReferences
  | .removeDirAll _ => Except IoError Unit

/-- Which calls fail for a reason of their own, and how gix lists each repository. A call that fails
does nothing; one call may fail and another on the same path go through. -/
structure Surroundings where
  fault : FsOp → Option String
  gix : Path → GixReferences

/-- Do a call, unless it fails. -/
def Surroundings.attempt (env : Surroundings) (op : FsOp) {α : Type}
    (call : Files → Except IoError α × Files) (files : Files) : Except IoError α × Files :=
  match env.fault op with
  | some cause => (.error (.other cause), files)
  | none => call files

/-- The answer to a call: a test that fails says no, and a removal does not fail. -/
def Surroundings.answer (env : Surroundings) : (op : FsOp) → Files → FsAns op × Files
  | .exists path, files =>
      ((env.fault (.exists path)).isNone && (files.node path).isSome, files)
  | .isDir path, files =>
      ((env.fault (.isDir path)).isNone && decide (files.node path = some .dir), files)
  | .mkdir again path, files => env.attempt (.mkdir again path) (fun files => files.mkdir path) files
  | .createFile path, files => env.attempt (.createFile path) (fun files => files.createFile path) files
  | .writeAll path content, files =>
      env.attempt (.writeAll path content) (fun files => files.writeAll content path) files
  | .read path, files => env.attempt (.read path) (fun files => (files.read path, files)) files
  | .references path, files => (env.gix path, files)
  | .removeDirAll path, files => files.removeDirAll path

/-! ### A directory and what was made in it -/

/-- What is in the directory `top`, and that nothing else has changed. -/
structure Holds (base : Files) (top : String) (made : List (Path × Node)) (files : Files) :
    Prop where
  inside : ∀ q, files.node (q ++ [top]) = made.lookup q
  outside : ∀ q, ¬ [top] <:+ q → files.node q = base.node q

theorem Files.node_put (files : Files) {name : String} {path : Path} {new : Node}
    (hdir : files.node path = some .dir)
    (hkeep : files.node (name :: path) = some .dir → new = .dir) (q : Path) :
    (files.put name path new hdir hkeep).node q =
      if q = name :: path then some new else files.node q := by
  show Function.update files.node (name :: path) (some new) q = _
  rw [Function.update_apply]

/-- Something new in the directory. -/
theorem Holds.put {base files : Files} {top : String} {made : List (Path × Node)}
    (h : Holds base top made files) {name : String} {path : Path} {new : Node}
    (hdir : files.node (path ++ [top]) = some .dir)
    (hkeep : files.node (name :: (path ++ [top])) = some .dir → new = .dir) :
    Holds base top ((name :: path, new) :: made)
      (files.put name (path ++ [top]) new hdir hkeep) := by
  constructor
  · intro q
    rw [Files.node_put, List.lookup_cons, h.inside]
    by_cases hq : q = name :: path
    · simp [hq]
    · have hne : q ++ [top] ≠ name :: (path ++ [top]) := by
        rw [← List.cons_append, ne_eq, List.append_left_inj]
        exact hq
      rw [if_neg hne, (beq_eq_false_iff_ne).mpr hq]
  · intro q hq
    have hne : q ≠ name :: (path ++ [top]) := by
      rintro rfl
      exact hq ⟨name :: path, rfl⟩
    rw [Files.node_put, if_neg hne, h.outside q hq]

end Storage
end Artifacts
