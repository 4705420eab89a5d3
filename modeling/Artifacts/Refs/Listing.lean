import Artifacts.Foundation.Sorting
import Artifacts.Foundation.Tables
import Artifacts.Ids
import Artifacts.Rust.Lines
import Mathlib.Data.List.Sort
import Mathlib.Data.String.Basic

/-!
# Listing refs

`enumerateRefs` and `headState` read the refs of a bare repository off its files:
`packed-refs`, the loose files under `refs/`, and `HEAD`.  `RefLister` holds the two
listing methods of the trait `RefStore`, `fsRefLister` those of `FsRefStore`.

The walk over the directories comes as a list of paths and contents; how it is made is in
`LooseTree`.  Lines and names are checked as in the source, and what fails a check is skipped.
-/

namespace Artifacts
namespace Refs

open Foundation Rust

/-- One row in a ref-listing response. -/
structure RefEntry where
  name : RefName
  oid : Oid
  /-- The object an annotated tag dereferences to. -/
  peeled : Option Oid
  deriving DecidableEq

/-- HEAD's three possible states. A symbolic `HEAD` is unborn as long as its branch does not exist;
a detached one names a commit itself. -/
inductive HeadState where
  | symbolic (target : RefName) (oid : Oid)
  | unborn (target : RefName)
  | detached (oid : Oid)
  deriving DecidableEq

def RefEntry.key (e : RefEntry) : String := e.name.text

/-- The files of a bare repository, as a lister meets them. A file that the walk comes upon need not
be readable. -/
structure GitDir where
  /-- `read_to_string` of a path in the directory. -/
  readToString : String → Except String String
  /-- The files that the walk of `refs/` comes upon: their paths, and their contents as far
  as they can be read. -/
  walk : List (String × Option String)

/-- By name: the map that `enumerate_refs` fills. -/
abbrev RefTable := Table RefEntry.key

/-- What one line of `packed-refs` does to the map and the name seen last. -/
def packedLine (printable : Char → Bool) (acc : RefTable × Option String) (line : String) :
    RefTable × Option String :=
  let (byName, lastName) := acc
  if line.isEmpty || startsWith line "#" then acc
  else if startsWith line "^" then
    match lastName, Oid.tryFrom printable (trim (String.ofList (line.toList.drop 1))) with
    | some name, .ok peel =>
        (byName.update (fun e => e.key == name) (fun e => { e with peeled := some peel })
          (fun _ => rfl), lastName)
    | _, _ => acc
  else
    match splitOnce line ' ' with
    | none => acc
    | some (sha, name) =>
        match RefName.tryFrom printable name, Oid.tryFrom printable sha with
        | .ok nameTyped, .ok oid => (byName.replace ⟨nameTyped, oid, none⟩, some name)
        | _, _ => acc

/-- What one loose file does to the map. -/
def looseFile (printable : Char → Bool) (byName : RefTable) (file : String × Option String) :
    RefTable :=
  match file.2 with
  | none => byName
  | some s =>
      match Oid.tryFrom printable (trim s), RefName.tryFrom printable file.1 with
      | .ok oid, .ok name => byName.replace ⟨name, oid, none⟩
      | _, _ => byName

/-- Entries in the order of their names. -/
def sortByName (entries : List RefEntry) : List RefEntry :=
  entries.insertionSort fun a b => a.name.text ≤ b.name.text

/-- `enumerate_refs`: packed refs first, loose refs override them. -/
def enumerateRefs (printable : Char → Bool) (dir : GitDir) : List RefEntry :=
  let packed :=
    match dir.readToString "packed-refs" with
    | .ok text => ((lines text).foldl (packedLine printable) (Table.empty, none)).1
    | .error _ => Table.empty
  sortByName (dir.walk.foldl (looseFile printable) packed).rows

/-- Does a line of `packed-refs` give this name an object? -/
def packedOid (printable : Char → Bool) (target line : String) : Option Oid :=
  if line.isEmpty || startsWith line "#" || startsWith line "^" then none
  else
    match splitOnce line ' ' with
    | none => none
    | some (sha, name) => if name = target then (Oid.tryFrom printable sha).toOption else none

/-- `head_state`. A symbolic `HEAD` is followed one step: to a loose file with an oid, or else to a
line of `packed-refs`. -/
def headState (printable : Char → Bool) (dir : GitDir) : Result HeadState :=
  match dir.readToString "HEAD" with
  | .error cause => .error (.io cause)
  | .ok raw =>
      let trimmed := trim raw
      if startsWith trimmed "ref: " then
        let targetStr := trim (String.ofList (trimmed.toList.drop 5))
        match RefName.tryFrom printable targetStr with
        | .error e => .error e
        | .ok target =>
            let loose := (dir.readToString targetStr).toOption.bind fun s =>
              (Oid.tryFrom printable (trim s)).toOption
            let packed := (dir.readToString "packed-refs").toOption.bind fun text =>
              (lines text).findSome? (packedOid printable targetStr)
            match loose, packed with
            | some oid, _ => .ok (.symbolic target oid)
            | none, some oid => .ok (.symbolic target oid)
            | none, none => .ok (.unborn target)
      else
        match Oid.tryFrom printable trimmed with
        | .ok oid => .ok (.detached oid)
        | .error _ => .error (.other ("unrecognized HEAD format: " ++ debugStr printable trimmed))

/-- The listing methods of `RefStore`. They have no state to pass along: a listing changes nothing.
-/
structure RefLister where
  list : RepoId → List String → Result (List RefEntry)
  readHead : RepoId → Result HeadState

/-- The entries of which some prefix is a prefix; every entry if there is none. -/
def listed (entries : List RefEntry) (prefixes : List String) : List RefEntry :=
  if prefixes.isEmpty then entries
  else entries.filter fun e => prefixes.any fun p => startsWith e.name.text p

/-- `FsRefStore::list` and `FsRefStore::read_head`, which read the files of the repository and do
not ask git. -/
def fsRefLister (printable : Char → Bool) (dirOf : RepoId → GitDir) : RefLister where
  list repoId prefixes := .ok (listed (enumerateRefs printable (dirOf repoId)) prefixes)
  readHead repoId := headState printable (dirOf repoId)

/-! ### What a listing looks like -/

theorem mem_sortByName {entries : List RefEntry} {e : RefEntry} :
    e ∈ sortByName entries ↔ e ∈ entries :=
  (List.perm_insertionSort _ entries).mem_iff

/-- Entries with distinct names come in ascending order. -/
theorem sortByName_pairwise {entries : List RefEntry} (h : (entries.map RefEntry.key).Nodup) :
    (sortByName entries).Pairwise fun a b => a.name.text < b.name.text :=
  insertionSort_pairwise_lt h

/-- Sorting commutes with picking: there is one order of distinct names. -/
theorem sortByName_filter {entries : List RefEntry} (h : (entries.map RefEntry.key).Nodup)
    (p : RefEntry → Bool) : sortByName (entries.filter p) = (sortByName entries).filter p := by
  have hfiltered : ((entries.filter p).map RefEntry.key).Nodup :=
    h.sublist (List.filter_sublist.map _)
  have hperm : (sortByName (entries.filter p)).Perm ((sortByName entries).filter p) :=
    (List.perm_insertionSort _ _).trans ((List.perm_insertionSort _ entries).filter p).symm
  exact eq_of_pairwise_lt hperm (sortByName_pairwise hfiltered) ((sortByName_pairwise h).filter p)

/-- No name is listed twice. -/
theorem enumerateRefs_distinct (printable : Char → Bool) (dir : GitDir) :
    ((enumerateRefs printable dir).map RefEntry.key).Nodup :=
  ((List.perm_insertionSort _ _).map RefEntry.key).nodup_iff.mpr (Table.distinct _)

end Refs
end Artifacts
