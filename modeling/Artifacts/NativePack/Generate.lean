import Artifacts.Foundation.Reachability
import Artifacts.Ids
import Artifacts.Rust.Bytes

/-!
# Native pack generation

`generatePack` answers a fetch: it walks the commits behind the wants up to the
haves, expands each commit to its tree and the contents of that tree, and writes
the objects into a pack.  The walk, the expansion and the writer are gix code,
held in a `Gix`; what the code relies on is `GixContract`.

* `Repository` is a finite map of objects whose links lead to objects of the right kind, which is
  a field of it.
* `InTreeOf` is what a commit holds without its parents.
* `Gix` is code from outside, and `GixContract` its documented behaviour on one fetch.

Wants that are no commits are not part of the contract.
-/

namespace Artifacts
namespace NativePack

open Foundation Relation Rust

/-! ### Object graphs -/

/-- An object, with the ids it refers to.  Submodule entries of a tree refer to
another repository and are left out. -/
inductive GitObject where
  | commit (tree : Oid) (parents : List Oid) (committerTime : Int)
  | tree (entries : List Oid)
  | blob
  | tag (target : Oid)
  deriving DecidableEq, Repr

/-- `find_object` in a list of objects. -/
def findIn (objects : List (Oid × GitObject)) (id : Oid) : Option GitObject :=
  (objects.find? fun entry => entry.1 == id).map Prod.snd

def isCommit : Option GitObject → Bool
  | some (.commit _ _ _) => true
  | _ => false

def isTree : Option GitObject → Bool
  | some (.tree _) => true
  | _ => false

def isBlob : Option GitObject → Bool
  | some .blob => true
  | _ => false

/-- What an object refers to is present and of the right kind. -/
def wellFormed (objects : List (Oid × GitObject)) : GitObject → Bool
  | .commit tree parents _ =>
      isTree (findIn objects tree) && parents.all fun p => isCommit (findIn objects p)
  | .tree entries =>
      entries.all fun e => isTree (findIn objects e) || isBlob (findIn objects e)
  | .blob => true
  | .tag target => (findIn objects target).isSome

/-- The object database of a repository, for a walk of its links. What an object refers to is there
and of the right kind, so a walk does not run into a hole. -/
structure Repository where
  objects : List (Oid × GitObject)
  wf : ∀ entry ∈ objects, wellFormed objects entry.2 = true

namespace Repository

variable (repo : Repository)

def find (id : Oid) : Option GitObject := findIn repo.objects id

/-- The ids an object refers to. -/
def links (id : Oid) : List Oid :=
  match repo.find id with
  | some (.commit tree parents _) => tree :: parents
  | some (.tree entries) => entries
  | some (.tag target) => [target]
  | _ => []

def parents (id : Oid) : List Oid :=
  match repo.find id with
  | some (.commit _ parents _) => parents
  | _ => []

def entries (id : Oid) : List Oid :=
  match repo.find id with
  | some (.tree entries) => entries
  | _ => []

/-- The committer time, of a commit. -/
def committerTime (id : Oid) : Option Int :=
  match repo.find id with
  | some (.commit _ _ time) => some time
  | _ => none

def treeOf (id : Oid) : Option Oid :=
  match repo.find id with
  | some (.commit tree _ _) => some tree
  | _ => none

/-- `b` is referred to by `a`. -/
def Link (a b : Oid) : Prop := b ∈ repo.links a

/-- `b` is a parent of `a`. -/
def Parent (a b : Oid) : Prop := b ∈ repo.parents a

/-- `b` is an entry of `a`. -/
def Entry (a b : Oid) : Prop := b ∈ repo.entries a

/-- The oldest committer time among some ids. -/
def oldest (ids : List Oid) : Option Int := (ids.filterMap repo.committerTime).min?

/-- `o` is in the tree of the commit `c`: the tree itself, or an entry at any depth. -/
def InTreeOf (c o : Oid) : Prop :=
  ∃ tree, repo.treeOf c = some tree ∧ ReflTransGen repo.Entry tree o

/-- A commit at or after a cutoff. -/
def Recent (cutoff : Option Int) (id : Oid) : Prop :=
  ∃ time, repo.committerTime id = some time ∧ ∀ c, cutoff = some c → c ≤ time

end Repository

/-! ### The gix interface -/

/-- The calls into gix, with the texts of their errors. -/
structure Gix where
  /-- `gix::open` on the repository's path. -/
  openRepo : Except String Repository
  /-- The error of `ObjectId::from_hex`. -/
  fromHexError : String → String
  /-- `rev_walk(wants).with_boundary(haves).all()`, item by item. -/
  revWalk : Repository → List Oid → List Oid → Except String (List (Except String Oid))
  /-- `count::objects` with `ObjectExpansion::TreeContents`. -/
  countObjects : Repository → List Oid → Except String (List Oid)
  /-- `iter_from_counts` into `FromEntriesIter`, given the number of entries. -/
  writeEntries : Repository → List Oid → UInt32 → Except String (List UInt8)

/-- `empty_pack_bytes`: the header of an empty pack and its SHA-1. -/
def emptyPackBytes : List UInt8 :=
  [80, 65, 67, 75, 0, 0, 0, 2, 0, 0, 0, 0,
    2, 157, 8, 130, 59, 216, 168, 234, 181, 16, 173, 106, 199, 92, 130, 60, 253, 62, 211, 30]

/-- `gix::ObjectId::from_hex`: forty hexadecimal digits of either case. -/
def fromHex (h : String) : Option Oid :=
  let lower := toAsciiLowercase h
  if hvalid : validOid lower = true then some ⟨lower, hvalid⟩ else none

section Generate

variable (printable : Char → Bool) (gix : Gix)

/-- `parse_oids`. The first text that is no oid ends it, with an error that names the text. -/
def parseOids : List String → Result (List Oid)
  | [] => .ok []
  | h :: hexes =>
      match fromHex h with
      | none => .error (.other ("invalid oid " ++ debugStr printable h ++ ": " ++
          gix.fromHexError h))
      | some oid =>
          match parseOids hexes with
          | .error e => .error e
          | .ok oids => .ok (oid :: oids)

/-- The loop that collects the walk. -/
def collectWalk : List (Except String Oid) → Result (List Oid)
  | [] => .ok []
  | .error e :: _ => .error (.other ("rev_walk iter: " ++ e))
  | .ok id :: items =>
      match collectWalk items with
      | .error e => .error e
      | .ok ids => .ok (id :: ids)

/-- The pack of a non-empty list of commits. -/
def packCommits (repo : Repository) (commitIds : List Oid) : Result (List UInt8) :=
  match gix.countObjects repo commitIds with
  | .error e => .error (.other ("pack count: " ++ e))
  | .ok counts =>
      if counts.isEmpty then
        .ok emptyPackBytes
      else
        match gix.writeEntries repo counts (UInt32.ofNat counts.length) with
        | .error e => .error (.other ("pack write: " ++ e))
        | .ok bytes => .ok bytes

/-- `generate_pack`. Without wants the pack is empty, and so it is if the walk finds no commit; the
texts of all errors are the code's. -/
def generatePack (repoPath : String) (wants haves : List String) : Result (List UInt8) :=
  if wants.isEmpty then
    .ok emptyPackBytes
  else
    match gix.openRepo with
    | .error e => .error (.gixError ("gix::open(" ++ repoPath ++ "): " ++ e))
    | .ok repo =>
        match parseOids printable gix wants with
        | .error e => .error e
        | .ok wantOids =>
            match parseOids printable gix haves with
            | .error e => .error e
            | .ok haveOids =>
                match gix.revWalk repo wantOids haveOids with
                | .error e => .error (.other ("rev_walk: " ++ e))
                | .ok walk =>
                    match collectWalk walk with
                    | .error e => .error e
                    | .ok commitIds =>
                        if commitIds.isEmpty then .ok emptyPackBytes
                        else packCommits gix repo commitIds

end Generate

/-- What `generate_pack` relies on in gix, for one repository and one fetch. `contents` are the
objects a client finds in a pack. Every part is about answers without an error; when gix fails is
left open. -/
structure GixContract (gix : Gix) (contents : List UInt8 → Oid → Prop) (repo : Repository)
    (wants haves : List Oid) : Prop where
  /-- The walk yields the commits behind the wants without entering a have and
  without entering a commit older than the oldest have. -/
  walk : ∀ ids : List Oid, gix.revWalk repo wants haves = .ok (ids.map .ok) → ∀ c, c ∈ ids ↔
    PrunedFrom repo.Parent {w | w ∈ wants}
      (fun y => y ∉ {h | h ∈ haves} ∧ repo.Recent (repo.oldest haves) y) c
  /-- The count is the listed commits, their trees, and the contents of these. -/
  count : ∀ commits counts, gix.countObjects repo commits = .ok counts → ∀ o, o ∈ counts ↔
    o ∈ commits ∨ ∃ c ∈ commits, repo.InTreeOf c o
  /-- The pack written holds what was counted. -/
  write : ∀ counts n bytes, gix.writeEntries repo counts n = .ok bytes →
    ∀ o, contents bytes o ↔ o ∈ counts
  /-- The empty pack holds nothing. -/
  empty : ∀ o, ¬ contents emptyPackBytes o

/-! ### Kinds along the links -/

namespace Repository

variable {repo : Repository}

theorem wf_of_find {id : Oid} {o : GitObject} (h : repo.find id = some o) :
    wellFormed repo.objects o = true := by
  obtain ⟨entry, hentry, rfl⟩ := Option.map_eq_some_iff.mp h
  exact repo.wf entry (List.mem_of_find?_eq_some hentry)

theorem isCommit_iff {id : Oid} :
    isCommit (repo.find id) = true ↔ ∃ time, repo.committerTime id = some time := by
  unfold committerTime
  cases repo.find id with
  | none => simp [isCommit]
  | some o => cases o <;> simp [isCommit]

/-- The parents of a commit are commits. -/
theorem isCommit_of_parent {a b : Oid} (h : repo.Parent a b) :
    isCommit (repo.find b) = true := by
  unfold Parent parents at h
  split at h
  · rename_i tree ps time hfind
    have hwf := wf_of_find hfind
    simp only [wellFormed, Bool.and_eq_true, List.all_eq_true] at hwf
    exact hwf.2 b h
  · cases h

/-- The entries of a tree are trees and blobs. -/
theorem isTree_or_isBlob_of_entry {a b : Oid} (h : repo.Entry a b) :
    isTree (repo.find b) = true ∨ isBlob (repo.find b) = true := by
  unfold Entry entries at h
  split at h
  · rename_i es hfind
    have hwf := wf_of_find hfind
    simp only [wellFormed, List.all_eq_true, Bool.or_eq_true] at hwf
    exact hwf b h
  · cases h

theorem isTree_of_treeOf {c tree : Oid} (h : repo.treeOf c = some tree) :
    isTree (repo.find tree) = true := by
  unfold treeOf at h
  split at h
  · rename_i tree' ps time hfind
    obtain rfl := Option.some.inj h
    have hwf := wf_of_find hfind
    simp only [wellFormed, Bool.and_eq_true] at hwf
    exact hwf.1
  · cases h

/-- The links of a commit are its tree and its parents. -/
theorem link_of_commit {a b : Oid} (ha : isCommit (repo.find a) = true) (h : repo.Link a b) :
    repo.treeOf a = some b ∨ repo.Parent a b := by
  unfold Link links at h
  unfold treeOf Parent parents
  cases hfind : repo.find a with
  | none =>
      rw [hfind] at ha
      cases ha
  | some o =>
      rw [hfind] at ha h
      cases o with
      | commit tree ps time =>
          rcases List.mem_cons.mp h with rfl | hp
          · exact Or.inl rfl
          · exact Or.inr hp
      | tree es => cases ha
      | blob => cases ha
      | tag t => cases ha

/-- The links of a tree or a blob are its entries. -/
theorem link_of_tree {a b : Oid}
    (ha : isTree (repo.find a) = true ∨ isBlob (repo.find a) = true) (h : repo.Link a b) :
    repo.Entry a b := by
  unfold Link links at h
  unfold Entry entries
  cases hfind : repo.find a with
  | none =>
      rw [hfind] at ha
      rcases ha with ha | ha <;> cases ha
  | some o =>
      rw [hfind] at ha h
      cases o with
      | commit tree ps time => rcases ha with ha | ha <;> cases ha
      | tree es => exact h
      | blob => cases h
      | tag t => rcases ha with ha | ha <;> cases ha

theorem Parent.link {a b : Oid} (h : repo.Parent a b) : repo.Link a b := by
  unfold Parent parents at h
  unfold Link links
  split at h
  · rename_i tree ps time hfind
    rw [hfind]
    exact List.mem_cons_of_mem tree h
  · cases h

theorem Entry.link {a b : Oid} (h : repo.Entry a b) : repo.Link a b := by
  unfold Entry entries at h
  unfold Link links
  split at h
  · rename_i es hfind
    rw [hfind]
    exact h
  · cases h

theorem link_treeOf {c tree : Oid} (h : repo.treeOf c = some tree) : repo.Link c tree := by
  unfold treeOf at h
  unfold Link links
  split at h
  · rename_i tree' ps time hfind
    obtain rfl := Option.some.inj h
    rw [hfind]
    exact List.mem_cons_self
  · cases h

end Repository

end NativePack
end Artifacts
