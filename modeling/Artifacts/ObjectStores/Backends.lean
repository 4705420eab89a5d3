import Artifacts.Foundation.Tables
import Artifacts.GitWire.Proto
import Artifacts.Refs.Enumerate
import Artifacts.Rust.Integers
import Artifacts.Storage.Lifecycle

/-!
# Three object stores

`FsObjectStore`, `MemObjectStore` and `SqliteObjectStore`, for the calls about loose
objects.  `now` is the clock at the call.

Each store is written as its source has it, `FsObjectStore` over paths, `MemObjectStore` over a map,
`SqliteObjectStore` over rows.  Packs are not part of this, nor the alternates of a repository,
except in what `exists` asks gix.
-/

namespace Artifacts
namespace ObjectStores

open Foundation GitWire Refs Rust Storage

/-- `ObjectStore`, the trait.  Its `exists` is `existsOid` here. -/
structure ObjectStore (σ : Type) where
  readLoose : σ → RepoId → Oid → Result (Option (List UInt8))
  writeLoose : Int64 → σ → RepoId → Oid → List UInt8 → Result Unit × σ
  listLoose : σ → RepoId → Result (List LooseInfo)
  deleteLoose : σ → RepoId → Oid → Result Bool × σ
  existsOid : σ → RepoId → Oid → Result Bool

/-! ### `FsObjectStore` -/

/-- A path below the root: the directory of the repository, and the two parts of an id
behind its `objects`. -/
structure LoosePath where
  repoDir : String
  subdir : String
  name : String
  deriving DecidableEq

structure LooseFile where
  path : LoosePath
  bytes : List UInt8
  modified : Int64
  deriving DecidableEq

/-- The files below the `objects` directories. -/
abbrev LooseFiles := Table LooseFile.path

/-- What gix makes of a repository without packs: whether it opens it, whose object
directories it searches besides, and whether it reads the header of a loose object. -/
structure Gix where
  opens : RepoId → Bool
  alternates : RepoId → List RepoId
  header : List UInt8 → Bool

/-- `FsObjectStore::loose_path`. The first two digits name the directory; an oid of any other length
has no path. -/
def loosePath (id : RepoId) (oid : Oid) : Option LoosePath :=
  if isHex40 oid.text then
    some ⟨id.text ++ ".git", String.ofList (oid.text.toList.take 2),
      String.ofList (oid.text.toList.drop 2)⟩
  else none

/-- The object id of a path that `list_loose` walks. -/
def walkedOid (path : LoosePath) : Option Oid :=
  if path.subdir.utf8ByteSize != 2 || !path.subdir.toList.all isAsciiHexdigit then none
  else if path.name.utf8ByteSize != 38 || !path.name.toList.all isAsciiHexdigit then none
  else oidOf (path.subdir ++ path.name)

/-- `Repository::find_header`, for loose objects: it looks in the repository and then in what it
borrows from. -/
def Gix.findHeader (gix : Gix) (files : LooseFiles) (id : RepoId) (oid : Oid) : Bool :=
  (id :: gix.alternates id).any fun dir =>
    match (loosePath dir oid).bind files.find? with
    | none => false
    | some file => gix.header file.bytes

/-- The error of a path that cannot be made. -/
def invalidOid (method : String) (oid : Oid) : Error :=
  .other (method ++ ": invalid oid Oid(\"" ++ oid.text ++ "\")")

def fsObjectStore (gix : Gix) : ObjectStore LooseFiles where
  readLoose files id oid :=
    match loosePath id oid with
    | none => .ok none
    | some path => .ok ((files.find? path).map LooseFile.bytes)
  writeLoose now files id oid bytes :=
    match loosePath id oid with
    | none => (.error (invalidOid "write_loose" oid), files)
    | some path =>
        if hthere : files.has path = true then (.ok (), files)
        else
          -- a temporary file of another name, renamed when it is complete
          (.ok (), files.append ⟨path, bytes, now⟩ (Bool.eq_false_iff.mpr hthere))
  listLoose files id :=
    .ok ((files.select fun file => file.path.repoDir == id.text ++ ".git").filterMap fun file =>
      (walkedOid file.path).map fun oid => ⟨oid, file.bytes.length, nowSecs file.modified⟩)
  deleteLoose files id oid :=
    match loosePath id oid with
    | none => (.error (invalidOid "delete_loose" oid), files)
    | some path =>
        if files.has path then (.ok true, files.delete fun file => file.path == path)
        else (.ok false, files)
  existsOid files id oid :=
    match loosePath id oid with
    | none => .ok false
    | some path =>
        if files.has path then .ok true
        else if !gix.opens id then .ok false
        else .ok (gix.findHeader files id oid)

/-! ### `MemObjectStore` -/

structure MemEntry where
  repoId : RepoId
  oid : Oid
  bytes : List UInt8
  createdSecs : Int64

def MemEntry.key (entry : MemEntry) : RepoId × Oid := (entry.repoId, entry.oid)

/-- The map of the store.  Its keys are the texts of ids that were typed. -/
abbrev MemEntries := Table MemEntry.key

def memObjectStore : ObjectStore MemEntries where
  readLoose entries id oid := .ok ((entries.find? (id, oid)).map MemEntry.bytes)
  writeLoose now entries id oid bytes := (.ok (), entries.replace ⟨id, oid, bytes, nowSecs now⟩)
  listLoose entries id :=
    .ok ((entries.select fun entry => entry.repoId == id).map fun entry =>
      ⟨entry.oid, entry.bytes.length, entry.createdSecs⟩)
  deleteLoose entries id oid :=
    (.ok (entries.has (id, oid)), entries.delete fun entry => entry.key == (id, oid))
  existsOid entries id oid := .ok (entries.has (id, oid))

/-! ### `SqliteObjectStore` -/

/-- A row of `loose_objects`. -/
structure LooseRow where
  repoId : RepoId
  oid : Oid
  bytes : List UInt8
  createdAt : Int64

/-- Its primary key. -/
def LooseRow.key (row : LooseRow) : RepoId × Oid := (row.repoId, row.oid)

abbrev LooseRows := Table LooseRow.key

def sqliteObjectStore : ObjectStore LooseRows where
  readLoose rows id oid := .ok ((rows.find? (id, oid)).map LooseRow.bytes)
  writeLoose now rows id oid bytes :=
    -- `INSERT OR IGNORE`
    (.ok (), (rows.insert ⟨id, oid, bytes, nowSecs now⟩).getD rows)
  listLoose rows id :=
    .ok ((rows.select fun row => row.repoId == id).map fun row =>
      ⟨row.oid, row.bytes.length, row.createdAt⟩)
  deleteLoose rows id oid :=
    (.ok (rows.has (id, oid)), rows.delete fun row => row.key == (id, oid))
  existsOid rows id oid := .ok (rows.has (id, oid))

/-! ### Calls -/

inductive Call where
  | writeLoose (id : RepoId) (oid : Oid) (bytes : List UInt8)
  | readLoose (id : RepoId) (oid : Oid)
  | listLoose (id : RepoId)
  | deleteLoose (id : RepoId) (oid : Oid)
  | existsOid (id : RepoId) (oid : Oid)

inductive Answer where
  | written
  | read (bytes : Option (List UInt8))
  | listed (infos : List LooseInfo)
  | deleted (there : Bool)
  | found (there : Bool)

/-- A call at a time. -/
def ObjectStore.call {σ : Type} (store : ObjectStore σ) (now : Int64) (s : σ) :
    Call → Result Answer × σ
  | .writeLoose id oid bytes =>
      ((store.writeLoose now s id oid bytes).1.map fun _ => .written,
        (store.writeLoose now s id oid bytes).2)
  | .readLoose id oid => ((store.readLoose s id oid).map .read, s)
  | .listLoose id => ((store.listLoose s id).map .listed, s)
  | .deleteLoose id oid =>
      ((store.deleteLoose s id oid).1.map .deleted, (store.deleteLoose s id oid).2)
  | .existsOid id oid => ((store.existsOid s id oid).map .found, s)

/-! ### Paths -/

theorem utf8ByteSize_of_hex {s : String} (h : ∀ c ∈ s.toList, isAsciiHexdigit c = true) :
    s.utf8ByteSize = s.toList.length :=
  utf8ByteSize_of_ascii fun c hc => by
    have hrange := range_of_isAsciiHexdigit (h c hc)
    omega

theorem length_oid (oid : Oid) : oid.text.toList.length = 40 := by
  rw [← utf8ByteSize_of_hex fun c => oid.isAsciiHexdigit_of_mem, oid.utf8ByteSize_text]

theorem isHex40_oid (oid : Oid) : isHex40 oid.text = true := by
  have hrange : ∀ c ∈ oid.text.toList, (48 ≤ c.toNat ∧ c.toNat ≤ 57) ∨
      (97 ≤ c.toNat ∧ c.toNat ≤ 102) ∨ (65 ≤ c.toNat ∧ c.toNat ≤ 70) :=
    fun c hc => range_of_isAsciiHexdigit (oid.isAsciiHexdigit_of_mem hc)
  have hascii : ∀ c ∈ oid.text.toList, c.toNat < 128 := by
    intro c hc
    have := hrange c hc
    omega
  unfold isHex40
  rw [asBytes_of_ascii hascii, List.length_map, length_oid, beq_self_eq_true, Bool.true_and,
    List.all_map, List.all_eq_true]
  intro c hc
  have hsize : (UInt8.ofNat c.toNat).toNat = c.toNat := by
    rw [UInt8.toNat_ofNat']
    have := hascii c hc
    omega
  simpa [UInt8.le_iff_toNat_le, hsize, or_assoc] using hrange c hc

/-- The path of an object. -/
def pathOf (id : RepoId) (oid : Oid) : LoosePath :=
  ⟨id.text ++ ".git", String.ofList (oid.text.toList.take 2), String.ofList (oid.text.toList.drop 2)⟩

/-- Every id has a path. -/
theorem loosePath_eq_some (id : RepoId) (oid : Oid) : loosePath id oid = some (pathOf id oid) :=
  if_pos (isHex40_oid oid)

/-- `list_loose` reads an object id off a path just when the path is that of the id. -/
theorem walkedOid_eq_some_iff {path : LoosePath} {oid : Oid} :
    walkedOid path = some oid ↔
      path.subdir = String.ofList (oid.text.toList.take 2) ∧
        path.name = String.ofList (oid.text.toList.drop 2) := by
  have hlength := length_oid oid
  constructor
  · intro h
    unfold walkedOid at h
    split_ifs at h with hsubdir hname
    rw [Bool.or_eq_true, not_or, bne_iff_ne, not_not, Bool.not_eq_true', Bool.not_eq_false,
      List.all_eq_true] at hsubdir
    have hsize : path.subdir.toList.length = 2 := by
      rw [← utf8ByteSize_of_hex hsubdir.2, hsubdir.1]
    have htext : oid.text.toList = path.subdir.toList ++ path.name.toList := by
      rw [← oidOf_eq_some.mp h, String.toList_append]
    constructor
    · rw [htext, List.take_left' hsize, String.ofList_toList]
    · rw [htext, List.drop_left' hsize, String.ofList_toList]
  · intro h
    obtain ⟨hsubdir, hname⟩ := h
    have hfirst : ∀ c ∈ path.subdir.toList, isAsciiHexdigit c = true := by
      intro c hc
      rw [hsubdir, String.toList_ofList] at hc
      exact oid.isAsciiHexdigit_of_mem (List.mem_of_mem_take hc)
    have hrest : ∀ c ∈ path.name.toList, isAsciiHexdigit c = true := by
      intro c hc
      rw [hname, String.toList_ofList] at hc
      exact oid.isAsciiHexdigit_of_mem (List.mem_of_mem_drop hc)
    have htwo : path.subdir.utf8ByteSize = 2 := by
      rw [utf8ByteSize_of_hex hfirst, hsubdir, String.toList_ofList, List.length_take]
      omega
    have hmany : path.name.utf8ByteSize = 38 := by
      rw [utf8ByteSize_of_hex hrest, hname, String.toList_ofList, List.length_drop]
      omega
    unfold walkedOid
    rw [htwo, List.all_eq_true.mpr hfirst, hmany, List.all_eq_true.mpr hrest, if_neg (by decide),
      if_neg (by decide), oidOf_eq_some, hsubdir, hname, ← String.ofList_append,
      List.take_append_drop, String.ofList_toList]

end ObjectStores
end Artifacts
